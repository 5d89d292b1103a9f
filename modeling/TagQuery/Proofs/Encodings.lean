import TagQuery.Proofs.Pieces

/-!
All the ways to write a value. An item has a form for each width that holds it, a value that is passed
over can be anything, and a map can list its entries in any order and more than once. Whichever way is
taken, the reader of the value takes the pieces. What is written takes one of these ways.
-/

namespace TagQuery.MessagePack

/-- A number in two's complement. -/
def twosComplement (z : Int) (width : Nat) : Nat :=
  (z % 256 ^ width).toNat

/-- The bytes of an item. Those whose markers leave room for a small number or length have a form of
one byte for it, and others give it in bytes that follow a marker. -/
inductive Item.Form : Item → Bytes → Prop where
  | nothing : Form .nothing [0xc0]
  | boolean (b : Bool) : Form (.boolean b) [if b then 0xc3 else 0xc2]
  | smallUnsigned {n : Nat} (hn : n < 0x80) : Form (.unsigned n) [UInt8.ofNat n]
  | unsigned {width n : Nat} {marker : UInt8}
      (hmarker : (width, marker) ∈ [(1, 0xcc), (2, 0xcd), (4, 0xce), (8, 0xcf)])
      (hn : n < 256 ^ width) : Form (.unsigned n) (marker :: bigEndian n width)
  | smallNegative {z : Int} (hlow : -0x20 ≤ z) (hneg : z < 0) :
      Form (.signed z) [UInt8.ofNat (twosComplement z 1)]
  | signed {width : Nat} {marker : UInt8} {z : Int}
      (hmarker : (width, marker) ∈ [(1, 0xd0), (2, 0xd1), (4, 0xd2), (8, 0xd3)])
      (hlow : -2 ^ (8 * width - 1) ≤ z) (hhigh : z < 2 ^ (8 * width - 1)) :
      Form (.signed z) (marker :: bigEndian (twosComplement z width) width)
  | float {marker : UInt8} {bytes : Bytes}
      (hmarker : (bytes.length, marker) ∈ [(4, 0xca), (8, 0xcb)]) : Form .float (marker :: bytes)
  | shortText {bytes : Bytes} (hlength : bytes.length < 0x20) :
      Form (.text bytes) (UInt8.ofNat (0xa0 + bytes.length) :: bytes)
  | text {width : Nat} {marker : UInt8} {bytes : Bytes}
      (hmarker : (width, marker) ∈ [(1, 0xd9), (2, 0xda), (4, 0xdb)])
      (hlength : bytes.length < 256 ^ width) :
      Form (.text bytes) (marker :: (bigEndian bytes.length width ++ bytes))
  | binary {width : Nat} {marker : UInt8} {bytes : Bytes}
      (hmarker : (width, marker) ∈ [(1, 0xc4), (2, 0xc5), (4, 0xc6)])
      (hlength : bytes.length < 256 ^ width) :
      Form (.binary bytes) (marker :: (bigEndian bytes.length width ++ bytes))
  | smallArray {size : Nat} (hsize : size < 0x10) : Form (.array size) [UInt8.ofNat (0x90 + size)]
  | array {width size : Nat} {marker : UInt8} (hmarker : (width, marker) ∈ [(2, 0xdc), (4, 0xdd)])
      (hsize : size < 256 ^ width) : Form (.array size) (marker :: bigEndian size width)
  | smallMap {size : Nat} (hsize : size < 0x10) : Form (.map size) [UInt8.ofNat (0x80 + size)]
  | map {width size : Nat} {marker : UInt8} (hmarker : (width, marker) ∈ [(2, 0xde), (4, 0xdf)])
      (hsize : size < 256 ^ width) : Form (.map size) (marker :: bigEndian size width)

theorem ofTwosComplement_twosComplement {width : Nat} {z : Int} (hwidth : width ∈ [1, 2, 4, 8])
    (hlow : -2 ^ (8 * width - 1) ≤ z) (hhigh : z < 2 ^ (8 * width - 1)) :
    ofTwosComplement width (twosComplement z width) = z := by
  simp only [List.mem_cons, List.not_mem_nil, or_false] at hwidth
  simp only [ofTwosComplement, twosComplement, Nat.one_shiftLeft]
  rcases hwidth with rfl | rfl | rfl | rfl
  all_goals
    norm_num at hlow hhigh ⊢
    split_ifs <;> omega

theorem twosComplement_lt (z : Int) (width : Nat) : twosComplement z width < 256 ^ width := by
  have hpos : (0 : Int) < 256 ^ width := by positivity
  have hlt := Int.emod_lt_of_pos z hpos
  have hnonneg := Int.emod_nonneg z hpos.ne'
  unfold twosComplement
  zify
  rwa [Int.toNat_of_nonneg hnonneg]

theorem consumes_takeInt {width : Nat} {z : Int} (hwidth : width ∈ [1, 2, 4, 8])
    (hlow : -2 ^ (8 * width - 1) ≤ z) (hhigh : z < 2 ^ (8 * width - 1)) :
    Consumes (takeInt width) (bigEndian (twosComplement z width) width) z :=
  (consumes_takeNat (twosComplement_lt z width)).bind_pure
    (congrArg Pure.pure (ofTwosComplement_twosComplement hwidth hlow hhigh))

theorem readMarked_negative {marker : Nat} (h : 0xe0 ≤ marker) :
    readMarked marker = pure (.signed (ofTwosComplement 1 marker)) := by
  unfold readMarked
  rw [if_neg (by omega), if_neg (by omega), if_neg (by omega), if_neg (by omega), if_pos h]

theorem consumes_marked {marker : UInt8} {reader : Reader Item} {bytes : Bytes} {item : Item}
    (hmarker : readMarked marker.toNat = reader) (h : Consumes reader bytes item) :
    Consumes readItem (marker :: bytes) item := by
  subst hmarker
  exact h

theorem Item.Form.consumes {item : Item} {bytes : Bytes} (h : item.Form bytes) :
    Consumes readItem bytes item := by
  cases h with
  | nothing => exact fun _ => rfl
  | boolean b =>
      cases b with
      | false => exact fun _ => rfl
      | true => exact fun _ => rfl
  | @smallUnsigned n hn =>
      refine consumes_readItem _ (by omega) ?_
      rw [readMarked_unsigned hn]
      exact .pure _
  | @unsigned width n marker hmarker hn =>
      have hread : readMarked marker.toNat = .unsigned <$> takeNat width := by
        simp only [List.mem_cons, Prod.mk.injEq, List.not_mem_nil, or_false] at hmarker
        rcases hmarker with ⟨rfl, rfl⟩ | ⟨rfl, rfl⟩ | ⟨rfl, rfl⟩ | ⟨rfl, rfl⟩ <;> rfl
      exact consumes_marked hread ((consumes_takeNat hn).map _)
  | @smallNegative z hlow hneg =>
      have hmarker : 0xe0 ≤ twosComplement z 1 := by
        unfold twosComplement
        omega
      refine consumes_readItem _ (twosComplement_lt z 1) ?_
      rw [readMarked_negative hmarker,
        ofTwosComplement_twosComplement (by decide) (by norm_num; omega) (by norm_num; omega)]
      exact .pure _
  | @signed width marker z hmarker hlow hhigh =>
      have hread : readMarked marker.toNat = .signed <$> takeInt width ∧ width ∈ [1, 2, 4, 8] := by
        simp only [List.mem_cons, Prod.mk.injEq, List.not_mem_nil, or_false] at hmarker
        rcases hmarker with ⟨rfl, rfl⟩ | ⟨rfl, rfl⟩ | ⟨rfl, rfl⟩ | ⟨rfl, rfl⟩ <;>
          exact ⟨rfl, by decide⟩
      exact consumes_marked hread.1 ((consumes_takeInt hread.2 hlow hhigh).map _)
  | @float marker bytes hmarker =>
      have hread : readMarked marker.toNat = (fun _ => Item.float) <$> take bytes.length := by
        simp only [List.mem_cons, Prod.mk.injEq, List.not_mem_nil, or_false] at hmarker
        rcases hmarker with ⟨hlength, rfl⟩ | ⟨hlength, rfl⟩ <;> rw [hlength] <;> rfl
      exact consumes_marked hread ((consumes_take bytes).map _)
  | shortText hlength =>
      refine consumes_readItem _ (by omega) ?_
      rw [readMarked_text hlength]
      exact (consumes_take _).map _
  | @text width marker bytes hmarker hlength =>
      have hread : readMarked marker.toNat = .text <$> takeSized width := by
        simp only [List.mem_cons, Prod.mk.injEq, List.not_mem_nil, or_false] at hmarker
        rcases hmarker with ⟨rfl, rfl⟩ | ⟨rfl, rfl⟩ | ⟨rfl, rfl⟩ <;> rfl
      exact consumes_marked hread ((consumes_takeSized hlength).map _)
  | @binary width marker bytes hmarker hlength =>
      have hread : readMarked marker.toNat = .binary <$> takeSized width := by
        simp only [List.mem_cons, Prod.mk.injEq, List.not_mem_nil, or_false] at hmarker
        rcases hmarker with ⟨rfl, rfl⟩ | ⟨rfl, rfl⟩ | ⟨rfl, rfl⟩ <;> rfl
      exact consumes_marked hread ((consumes_takeSized hlength).map _)
  | smallArray hsize =>
      refine consumes_readItem _ (by omega) ?_
      rw [readMarked_array hsize]
      exact .pure _
  | @array width size marker hmarker hsize =>
      have hread : readMarked marker.toNat = .array <$> takeNat width := by
        simp only [List.mem_cons, Prod.mk.injEq, List.not_mem_nil, or_false] at hmarker
        rcases hmarker with ⟨rfl, rfl⟩ | ⟨rfl, rfl⟩ <;> rfl
      exact consumes_marked hread ((consumes_takeNat hsize).map _)
  | smallMap hsize =>
      refine consumes_readItem _ (by omega) ?_
      rw [readMarked_map hsize]
      exact .pure _
  | @map width size marker hmarker hsize =>
      have hread : readMarked marker.toNat = .map <$> takeNat width := by
        simp only [List.mem_cons, Prod.mk.injEq, List.not_mem_nil, or_false] at hmarker
        rcases hmarker with ⟨rfl, rfl⟩ | ⟨rfl, rfl⟩ <;> rfl
      exact consumes_marked hread ((consumes_takeNat hsize).map _)

theorem Item.Form.takes {item : Item} {bytes : Bytes} (h : item.Form bytes) :
    Takes readItem [bytes] item :=
  .item h.consumes

theorem form_encodeNat {n : Nat} (h : n < 2 ^ 64) : (Item.unsigned n).Form (encodeNat n) := by
  unfold encodeNat
  split_ifs with h7 h8 h16 h32
  · exact .smallUnsigned h7
  · exact .unsigned (by decide) h8
  · exact .unsigned (by decide) h16
  · exact .unsigned (by decide) h32
  · exact .unsigned (by decide) h

theorem form_encodeArrayHead {size : Nat} (h : size < 2 ^ 32) :
    (Item.array size).Form (encodeArrayHead size) := by
  unfold encodeArrayHead
  split_ifs with h4 h16
  · exact .smallArray h4
  · exact .array (by decide) h16
  · exact .array (by decide) h

theorem form_encodeMapHead {size : Nat} (h : size < 2 ^ 32) :
    (Item.map size).Form (encodeMapHead size) := by
  unfold encodeMapHead
  split_ifs with h4 h16
  · exact .smallMap h4
  · exact .map (by decide) h16
  · exact .map (by decide) h

theorem form_encodeText {s : String} (h : (Text.utf8 s).length < 2 ^ 32) :
    (Item.text (Text.utf8 s)).Form (encodeText s) := by
  unfold encodeText encodeTextHead
  split_ifs with h5 h8 h16
  · exact .shortText h5
  · exact .text (by decide) h8
  · exact .text (by decide) h16
  · exact .text (by decide) h

/-! ### Values that are passed over -/

/-- An item that is a value by itself. -/
def Item.IsSingle : Item → Prop
  | .array _ | .map _ | .extension _ => False
  | _ => True

/-- A value of any kind, with others nested in it so deep at most. -/
inductive IsValue : (depth : Nat) → List Bytes → Prop where
  | single {depth : Nat} {item : Item} {bytes : Bytes} (hsingle : item.IsSingle)
      (hform : item.Form bytes) : IsValue depth [bytes]
  | array {depth : Nat} {head : Bytes} {values : List (List Bytes)}
      (hhead : (Item.array values.length).Form head) (hvalues : ∀ value ∈ values, IsValue depth value) :
      IsValue (depth + 1) (head :: values.flatten)
  | map {depth size : Nat} {head : Bytes} {values : List (List Bytes)}
      (hhead : (Item.map size).Form head) (hsize : values.length = 2 * size)
      (hvalues : ∀ value ∈ values, IsValue depth value) :
      IsValue (depth + 1) (head :: values.flatten)

theorem takes_repeatedly {reader : Reader Unit} {values : List (List Bytes)}
    (h : ∀ value ∈ values, Takes reader value ()) :
    Takes (repeatedly reader values.length) values.flatten () := by
  induction values with
  | nil => exact .pure ()
  | cons value values ih =>
      obtain ⟨hvalue, hvalues⟩ := List.forall_mem_cons.mp h
      exact hvalue.bind (ih hvalues)

theorem Item.IsSingle.skipInside_eq {item : Item} (h : item.IsSingle) (skipValue : Reader Unit) :
    item.skipInside skipValue = none := by
  cases item with
  | array | map | extension => exact h.elim
  | _ => rfl

theorem IsValue.takes_skip {depth room : Nat} {pieces : List Bytes} (h : IsValue depth pieces)
    (hroom : depth < room) : Takes (skip room) pieces () := by
  induction h generalizing room with
  | single hsingle hform =>
      match room with
      | 1 => exact hform.takes.bind_pure (by rw [hsingle.skipInside_eq])
      | inner + 2 => exact hform.takes.bind_pure (by rw [hsingle.skipInside_eq])
  | array hhead _ ih =>
      match room with
      | inner + 2 =>
          exact hhead.takes.bind (takes_repeatedly fun value hvalue => ih value hvalue (by omega))
  | map hhead hsize _ ih =>
      match room with
      | inner + 2 =>
          have hinside := takes_repeatedly fun value hvalue => ih value hvalue
            (show _ < inner + 1 by omega)
          rw [hsize] at hinside
          exact hhead.takes.bind hinside

inductive IsNumber (n : UInt64) : List Bytes → Prop where
  | unsigned {bytes : Bytes} (h : (Item.unsigned n.toNat).Form bytes) : IsNumber n [bytes]
  | signed {bytes : Bytes} (h : (Item.signed n.toNat).Form bytes) : IsNumber n [bytes]

inductive IsBool (b : Bool) : List Bytes → Prop where
  | boolean {bytes : Bytes} (h : (Item.boolean b).Form bytes) : IsBool b [bytes]

inductive IsText (s : String) : List Bytes → Prop where
  | text {bytes : Bytes} (h : (Item.text (Text.utf8 s)).Form bytes) : IsText s [bytes]
  | binary {bytes : Bytes} (h : (Item.binary (Text.utf8 s)).Form bytes) : IsText s [bytes]

theorem IsNumber.takes {n : UInt64} {pieces : List Bytes} (h : IsNumber n pieces) :
    Takes readUInt64 pieces n := by
  cases h with
  | unsigned h => exact h.takes.bind_pure (congrArg Pure.pure UInt64.ofNat_toNat)
  | signed h =>
      refine h.takes.bind_pure ?_
      simp only [Int.natCast_nonneg, if_true, Int.toNat_natCast, UInt64.ofNat_toNat]

theorem IsBool.takes {b : Bool} {pieces : List Bytes} (h : IsBool b pieces) :
    Takes readBool pieces b := by
  obtain ⟨h⟩ := h
  exact h.takes.bind_pure rfl

theorem IsText.takes {s : String} {pieces : List Bytes} (h : IsText s pieces) :
    Takes readText pieces s := by
  cases h with
  | text h | binary h => exact h.takes.bind_pure (by simp only [ofUtf8?_utf8])

section Maps

variable {κ ν : Type} [LT κ] [DecidableLT κ] [Trans (α := κ) (· < ·) (· < ·) (· < ·)]
  {IsKey : κ → List Bytes → Prop} {IsElement : ν → List Bytes → Prop}

/-- The keys and values of a list of entries, one after another. -/
inductive AreEntries (IsKey : κ → List Bytes → Prop) (IsElement : ν → List Bytes → Prop) :
    List (κ × ν) → List Bytes → Prop where
  | nil : AreEntries IsKey IsElement [] []
  | cons {key : κ} {value : ν} {entries : List (κ × ν)} {k v rest : List Bytes} (hkey : IsKey key k)
      (hvalue : IsElement value v) (hrest : AreEntries IsKey IsElement entries rest) :
      AreEntries IsKey IsElement ((key, value) :: entries) (k ++ (v ++ rest))

/-- Entries in any order, of which the last one with a key counts. -/
inductive IsMap [BEq κ] (IsKey : κ → List Bytes → Prop) (IsElement : ν → List Bytes → Prop)
    (m : SortedMap κ ν) : List Bytes → Prop where
  | entries {entries : List (κ × ν)} {head : Bytes} {rest : List Bytes}
      (hhead : (Item.map entries.length).Form head) (hentries : AreEntries IsKey IsElement entries rest)
      (hlast : ∀ key, m.get? key = entries.reverse.lookup key) :
      IsMap IsKey IsElement m (head :: rest)

variable {readKey : Reader κ} {readValue : Reader ν}

theorem AreEntries.takes (hkey : ∀ key pieces, IsKey key pieces → Takes readKey pieces key)
    (hvalue : ∀ value pieces, IsElement value pieces → Takes readValue pieces value)
    {entries : List (κ × ν)} {pieces : List Bytes} (h : AreEntries IsKey IsElement entries pieces)
    (m : SortedMap κ ν) :
    Takes (readEntries readKey readValue entries.length m) pieces
      (entries.foldl (fun m entry => m.insert entry.1 entry.2) m) := by
  induction h generalizing m with
  | nil => exact .pure m
  | cons hk hv _ ih => exact (hkey _ _ hk).bind ((hvalue _ _ hv).bind (ih _))

variable [DecidableEq κ] [BEq κ] [LawfulBEq κ] [Std.Irrefl (α := κ) (· < ·)]
  [Std.Trichotomous (α := κ) (· < ·)]

theorem IsMap.takes (hkey : ∀ key pieces, IsKey key pieces → Takes readKey pieces key)
    (hvalue : ∀ value pieces, IsElement value pieces → Takes readValue pieces value)
    {m : SortedMap κ ν} {pieces : List Bytes} (h : IsMap IsKey IsElement m pieces) :
    Takes (readMap readKey readValue) pieces m := by
  obtain @⟨entries, head, rest, hhead, hentries, hlast⟩ := h
  have hm : SortedMap.ofList entries = m :=
    SortedMap.ext_get? fun key => by rw [SortedMap.get?_ofList, hlast]
  exact hhead.takes.bind (hm ▸ hentries.takes hkey hvalue ∅)

end Maps

section Maps

variable {κ ν : Type} {key : κ → List Bytes} {value : ν → List Bytes}
  {IsKey : κ → List Bytes → Prop} {IsElement : ν → List Bytes → Prop}

theorem flatten_mapPieces (entries : List (κ × ν)) :
    (mapPieces key value entries).flatten =
      encodeMap (fun k => (key k).flatten) (fun v => (value v).flatten) entries := by
  rw [mapPieces, List.flatten_cons, encodeMap, List.append_cancel_left_eq]
  induction entries with
  | nil => rfl
  | cons entry entries ih =>
      rw [List.flatMap_cons, List.flatMap_cons, List.flatten_append, List.flatten_append, ih]

theorem areEntries_flatMap {entries : List (κ × ν)}
    (h : ∀ entry ∈ entries, IsKey entry.1 (key entry.1) ∧ IsElement entry.2 (value entry.2)) :
    AreEntries IsKey IsElement entries (entries.flatMap fun entry => key entry.1 ++ value entry.2) := by
  induction entries with
  | nil => exact .nil
  | cons entry entries ih =>
      obtain ⟨⟨hkey, hvalue⟩, hentries⟩ := List.forall_mem_cons.mp h
      rw [List.flatMap_cons, List.append_assoc]
      exact .cons hkey hvalue (ih hentries)

/-- The entries of a map in the order of their keys, in which they make up the map. -/
theorem isMap_mapPieces [LT κ] [DecidableLT κ] [Trans (α := κ) (· < ·) (· < ·) (· < ·)]
    [DecidableEq κ] [BEq κ] [LawfulBEq κ] [Std.Irrefl (α := κ) (· < ·)]
    [Std.Trichotomous (α := κ) (· < ·)] {m : SortedMap κ ν} (hsize : m.size < 2 ^ 32)
    (h : ∀ entry ∈ m.entries, IsKey entry.1 (key entry.1) ∧ IsElement entry.2 (value entry.2)) :
    IsMap IsKey IsElement m (mapPieces key value m.entries) :=
  .entries (form_encodeMapHead hsize) (areEntries_flatMap h) fun k => by
    rw [← SortedMap.get?_ofList, m.ofList_entries]

end Maps

end TagQuery.MessagePack
