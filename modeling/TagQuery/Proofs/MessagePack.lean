import Mathlib.Tactic.Ring
import Mathlib.Tactic.SplitIfs
import TagQuery.MessagePack.Encode
import TagQuery.MessagePack.Record
import TagQuery.Proofs.SortedMap

/-!
Readers, by what they consume and by what they can yield. What a reader consumes it takes from the
front of any bytes, whatever follows, so that readers can be put one after another. And what a reader
yields is never longer than the heads of values can say.
-/

namespace TagQuery.MessagePack

/-- Wherever the bytes come first, the reader gives the value and leaves what follows them. -/
def Consumes {α : Type} (reader : Reader α) (bytes : Bytes) (value : α) : Prop :=
  ∀ rest, reader (bytes ++ rest) = .ok (value, rest)

namespace Consumes

variable {α β : Type} {reader : Reader α} {next : α → Reader β} {front back : Bytes} {a : α} {b : β}

theorem pure (a : α) : Consumes (pure a : Reader α) [] a :=
  fun _ => rfl

theorem bind (h : Consumes reader front a) (hnext : Consumes (next a) back b) :
    Consumes (reader >>= next) (front ++ back) b := by
  intro rest
  show (reader (front ++ back ++ rest) >>= fun found => next found.1 found.2) = .ok (b, rest)
  rw [List.append_assoc, h]
  exact hnext rest

theorem bind_pure (h : Consumes reader front a) (hnext : next a = Pure.pure b) :
    Consumes (reader >>= next) front b := by
  rw [← List.append_nil front]
  exact h.bind (hnext ▸ pure b)

theorem map (h : Consumes reader front a) (f : α → β) : Consumes (f <$> reader) front (f a) := by
  rw [map_eq_pure_bind]
  exact h.bind_pure rfl

end Consumes

theorem length_bigEndian (n width : Nat) : (bigEndian n width).length = width := by
  induction width with
  | zero => rfl
  | succ width ih => rw [bigEndian, List.length_cons, ih]

/-- Bytes that follow those of `m` add their digits to it, to the base of 256. -/
theorem foldl_bigEndian (n m width : Nat) :
    (bigEndian n width).foldl (fun n byte => 256 * n + byte.toNat) m =
      m * 256 ^ width + n % 256 ^ width := by
  induction width generalizing m with
  | zero => simp [bigEndian, Nat.mod_one]
  | succ width ih =>
      have hbyte : (UInt8.ofNat (n >>> (8 * width))).toNat = n / 256 ^ width % 256 := by
        rw [UInt8.toNat_ofNat', Nat.shiftRight_eq_div_pow, Nat.pow_mul]
      rw [bigEndian, List.foldl_cons, ih, hbyte, Nat.pow_succ, Nat.mod_mul]
      ring

theorem ofBigEndian_bigEndian {n width : Nat} (h : n < 256 ^ width) :
    ofBigEndian (bigEndian n width) = n := by
  rw [ofBigEndian, foldl_bigEndian, Nat.zero_mul, Nat.zero_add, Nat.mod_eq_of_lt h]

theorem consumes_take (bytes : Bytes) : Consumes (take bytes.length) bytes bytes := by
  intro rest
  simp [take]

theorem consumes_takeNat {n width : Nat} (h : n < 256 ^ width) :
    Consumes (takeNat width) (bigEndian n width) n := by
  have htake := consumes_take (bigEndian n width)
  rw [length_bigEndian] at htake
  exact htake.bind_pure (by rw [ofBigEndian_bigEndian h])

theorem consumes_takeSized {width : Nat} {bytes : Bytes} (h : bytes.length < 256 ^ width) :
    Consumes (takeSized width) (bigEndian bytes.length width ++ bytes) bytes :=
  (consumes_takeNat h).bind (consumes_take bytes)

theorem consumes_readItem (marker : Nat) {bytes : Bytes} {item : Item} (hmarker : marker < 0x100)
    (h : Consumes (readMarked marker) bytes item) :
    Consumes readItem (UInt8.ofNat marker :: bytes) item := by
  intro rest
  show readMarked (UInt8.ofNat marker).toNat (bytes ++ rest) = .ok (item, rest)
  rw [UInt8.toNat_ofNat_of_lt' hmarker]
  exact h rest

theorem readMarked_unsigned {n : Nat} (h : n < 0x80) : readMarked n = pure (.unsigned n) :=
  if_pos h

theorem readMarked_map {size : Nat} (h : size < 0x10) :
    readMarked (0x80 + size) = pure (.map size) := by
  unfold readMarked
  rw [if_neg (by omega), if_pos (by omega), Nat.add_sub_cancel_left]

theorem readMarked_array {size : Nat} (h : size < 0x10) :
    readMarked (0x90 + size) = pure (.array size) := by
  unfold readMarked
  rw [if_neg (by omega), if_neg (by omega), if_pos (by omega), Nat.add_sub_cancel_left]

theorem readMarked_text {size : Nat} (h : size < 0x20) :
    readMarked (0xa0 + size) = .text <$> take size := by
  unfold readMarked
  rw [if_neg (by omega), if_neg (by omega), if_neg (by omega), if_pos (by omega),
    Nat.add_sub_cancel_left]

theorem ofUtf8?_utf8 (s : String) : Text.ofUtf8? (Text.utf8 s) = some s :=
  dif_pos s.isValidUTF8

theorem utf8_of_ofUtf8? {bytes : Bytes} {s : String} (h : Text.ofUtf8? bytes = some s) :
    Text.utf8 s = bytes := by
  unfold Text.ofUtf8? String.fromUTF8? at h
  split_ifs at h
  cases h
  rfl

/-! ### What a reader yields -/

/-- Whatever value the reader gives has the property. -/
def Yields {α : Type} (reader : Reader α) (P : α → Prop) : Prop :=
  ∀ bytes a rest, reader bytes = .ok (a, rest) → P a

namespace Yields

variable {α β : Type} {reader : Reader α} {next : α → Reader β} {P P' : α → Prop} {Q : β → Prop}

theorem pure {a : α} (h : P a) : Yields (pure a : Reader α) P := by
  rintro bytes _ rest ⟨⟩
  exact h

theorem throw (e : ReadError) : Yields (throw e : Reader α) P :=
  nofun

theorem lift (outcome : Except ReadError α) (h : ∀ a, outcome = .ok a → P a) :
    Yields (liftM outcome : Reader α) P := by
  intro bytes a rest hread
  cases outcome with
  | error e => cases hread
  | ok found =>
      cases hread
      exact h _ rfl

theorem trivial (reader : Reader α) : Yields reader fun _ => True :=
  fun _ _ _ _ => True.intro

theorem bind (h : Yields reader P) (hnext : ∀ a, P a → Yields (next a) Q) :
    Yields (reader >>= next) Q := by
  intro bytes b rest hread
  change (reader bytes >>= fun found => next found.1 found.2) = .ok (b, rest) at hread
  cases hfound : reader bytes with
  | error e =>
      rw [hfound] at hread
      cases hread
  | ok found =>
      rw [hfound] at hread
      exact hnext found.1 (h bytes found.1 found.2 hfound) found.2 b rest hread

theorem mono (h : Yields reader P) (hP : ∀ a, P a → P' a) : Yields reader P' :=
  fun bytes a rest hread => hP a (h bytes a rest hread)

theorem map {f : α → β} (h : Yields reader P) (hf : ∀ a, P a → Q (f a)) : Yields (f <$> reader) Q := by
  rw [map_eq_pure_bind]
  exact h.bind fun a ha => .pure (hf a ha)

end Yields

theorem yields_take (count : Nat) : Yields (take count) (·.length = count) := by
  intro bytes front rest h
  unfold take at h
  dsimp only at h
  split_ifs at h with hlength
  cases h
  have := List.length_take_le count bytes
  omega

theorem ofBigEndian_lt (bytes : Bytes) : ofBigEndian bytes < 256 ^ bytes.length := by
  induction bytes using List.reverseRecOn with
  | nil => exact Nat.one_pos
  | append_singleton bytes byte ih =>
      have hbyte := byte.toNat_lt
      rw [ofBigEndian, List.foldl_append, List.length_append, List.length_singleton, Nat.pow_succ]
      change 256 * ofBigEndian bytes + byte.toNat < _
      omega

theorem yields_takeNat (width : Nat) : Yields (takeNat width) (· < 256 ^ width) :=
  (yields_take width).bind fun bytes hbytes => .pure (hbytes ▸ ofBigEndian_lt bytes)

theorem yields_takeSized (width : Nat) : Yields (takeSized width) (·.length < 256 ^ width) :=
  (yields_takeNat width).bind fun count hcount => (yields_take count).mono fun _ h => h ▸ hcount

/-- The length of a text or of a map is one that four bytes can hold. -/
def Item.IsShort : Item → Prop
  | .text bytes | .binary bytes => bytes.length < 2 ^ 32
  | .map size => size < 2 ^ 32
  | _ => True

section Markers

variable {marker : Nat}

/-- A number in at most four bytes is short. -/
theorem yields_map_takeNat {width : Nat} (hwidth : width ≤ 4) {f : Nat → Item}
    (hf : ∀ n < 2 ^ 32, (f n).IsShort) : Yields (f <$> takeNat width) Item.IsShort :=
  (yields_takeNat width).map fun n hn =>
    hf n (hn.trans_le (Nat.pow_le_pow_right (n := 256) (by decide) hwidth))

/-- So are bytes whose length is given in at most four bytes. -/
theorem yields_map_takeSized {width : Nat} (hwidth : width ≤ 4) {f : Bytes → Item}
    (hf : ∀ bytes : Bytes, bytes.length < 2 ^ 32 → (f bytes).IsShort) :
    Yields (f <$> takeSized width) Item.IsShort :=
  (yields_takeSized width).map fun bytes hbytes =>
    hf bytes (hbytes.trans_le (Nat.pow_le_pow_right (n := 256) (by decide) hwidth))

theorem yields_map_of_forall {α : Type} (reader : Reader α) {f : α → Item}
    (hf : ∀ a, (f a).IsShort) : Yields (f <$> reader) Item.IsShort :=
  (Yields.trivial reader).map fun a _ => hf a

theorem yields_readMarked : Yields (readMarked marker) Item.IsShort := by
  unfold readMarked
  split_ifs
  · exact .pure trivial
  · exact .pure (show marker - 0x80 < 2 ^ 32 by omega)
  · exact .pure trivial
  · refine (yields_take _).map fun bytes hbytes => ?_
    show bytes.length < 2 ^ 32
    omega
  · exact .pure trivial
  · split
    all_goals first
      | exact .pure trivial
      | exact .throw _
      | exact yields_map_takeSized (by decide) fun _ h => h
      | exact yields_map_takeNat (by decide) fun _ h => h
      | exact yields_map_of_forall _ fun _ => trivial

end Markers

theorem yields_readItem : Yields readItem Item.IsShort := by
  intro bytes item rest h
  cases bytes with
  | nil => cases h
  | cons marker bytes => exact yields_readMarked bytes item rest h

theorem yields_readText : Yields readText fun s => (Text.utf8 s).length < 2 ^ 32 := by
  refine yields_readItem.bind fun item hitem => ?_
  split
  next bytes =>
    split
    next s hs => exact .pure (utf8_of_ofUtf8? hs ▸ hitem)
    next => exact .throw _
  next bytes =>
    split
    next s hs => exact .pure (utf8_of_ofUtf8? hs ▸ hitem)
    next => exact .throw _
  next => exact .throw _

section Maps

variable {κ ν : Type} [LT κ] [DecidableLT κ] [Trans (α := κ) (· < ·) (· < ·) (· < ·)]
  {readKey : Reader κ} {readValue : Reader ν} {P : κ → Prop}

/-- A map gets at most one entry from each that is read. -/
theorem yields_readEntries (hkey : Yields readKey P) (count : Nat) {m : SortedMap κ ν}
    (hm : ∀ key ∈ m.keys, P key) :
    Yields (readEntries readKey readValue count m) fun m' =>
      m'.size ≤ m.size + count ∧ ∀ key ∈ m'.keys, P key := by
  induction count generalizing m with
  | zero => exact .pure ⟨Nat.le_refl _, hm⟩
  | succ count ih =>
      refine hkey.bind fun key hP => (Yields.trivial readValue).bind fun value _ => ?_
      have hinsert : ∀ key' ∈ (m.insert key value).keys, P key' := fun key' hkey' =>
        (SortedMap.eq_or_mem_of_mem_keys_insert hkey').elim (fun h => h ▸ hP) (hm key')
      refine (ih hinsert).mono fun m' ⟨hsize, hkeys⟩ => ⟨?_, hkeys⟩
      have := m.size_insert_le key value
      omega

theorem yields_readMap (readValue : Reader ν) (hkey : Yields readKey P) :
    Yields (readMap readKey readValue) fun m => m.size < 2 ^ 32 ∧ ∀ key ∈ m.keys, P key := by
  refine yields_readItem.bind fun item hitem => ?_
  split
  next size =>
    refine (yields_readEntries hkey size (by nofun)).mono fun m ⟨hsize, hkeys⟩ => ⟨?_, hkeys⟩
    have hempty : (∅ : SortedMap κ ν).size = 0 := rfl
    have hshort : size < 2 ^ 32 := hitem
    omega
  next => exact .throw _

end Maps

section Records

variable {σ : Type} {format : RecordFormat σ} {P : σ → Prop}

theorem yields_field {α : Type} {name : String} {get : σ → Option α} {set : σ → α → σ}
    {value : Reader α} {Q : α → Prop} {s : σ} (hvalue : Yields value Q)
    (hset : ∀ a, Q a → P (set s a)) : Yields ((RecordField.of name get set value).read s) P :=
  hvalue.bind fun a ha => .pure (hset a ha)

theorem yields_readInOrder {fields : List (RecordField σ)}
    (hfields : ∀ field ∈ fields, ∀ s, P s → Yields (field.read s) P) (size index : Nat) {s : σ}
    (hs : P s) : Yields (format.readInOrder size index fields s) P := by
  induction fields generalizing index s with
  | nil => exact .pure hs
  | cons field fields ih =>
      unfold RecordFormat.readInOrder
      split_ifs
      · exact (hfields field List.mem_cons_self s hs).bind fun s' hs' =>
          ih (fun field hfield => hfields field (List.mem_cons_of_mem _ hfield)) (index + 1) hs'
      · exact .throw _

theorem mem_fields_of_fieldOfKey {item : Item} {field : RecordField σ}
    (h : format.fieldOfKey item = .ok (some field)) : field ∈ format.fields := by
  cases item with
  | unsigned number => exact List.mem_of_getElem? (Except.ok.inj h)
  | text bytes | binary bytes => exact List.mem_of_find?_eq_some (Except.ok.inj h)
  | _ => cases h

theorem yields_readEntriesOf
    (hfields : ∀ field ∈ format.fields, ∀ s, P s → Yields (field.read s) P) (room count : Nat)
    {s : σ} (hs : P s) : Yields (format.readEntriesOf room count s) P := by
  induction count generalizing s with
  | zero => exact .pure hs
  | succ count ih =>
      refine (Yields.trivial readItem).bind fun item _ =>
        (Yields.lift (format.fieldOfKey item) fun _ => id).bind fun field? hfield => ?_
      split
      next => exact (Yields.trivial (skip room)).bind fun _ _ => ih hs
      next field =>
        split_ifs
        · exact .throw _
        · exact (hfields field (mem_fields_of_fieldOfKey hfield) s hs).bind fun s' hs' => ih hs'

/-- What each field keeps when it is read, all of them keep, however the record is written. -/
theorem yields_readRecord
    (hfields : ∀ field ∈ format.fields, ∀ s, P s → Yields (field.read s) P) (room : Nat) {s : σ}
    (hs : P s) : Yields (format.read room s) P := by
  refine (Yields.trivial readItem).bind fun item _ => ?_
  split
  next size => exact yields_readInOrder hfields size 0 hs
  next size => exact yields_readEntriesOf hfields room size hs
  next => exact .throw _

end Records

end TagQuery.MessagePack
