import TagQuery.Proofs.Records
import TagQuery.Store.Snapshot

/-!
All the ways to write a store. Whichever widths, orders and keys are chosen, and whatever stands under
keys that mean no field, the store is loaded.
-/

namespace TagQuery

open MessagePack

namespace Visibility

/-- The fields of a visibility. -/
def fieldForms (v : Visibility) : List FieldForm :=
  [⟨"hide_unsafe", IsBool v.hidesNotSafe⟩, ⟨"hide_explicit", IsBool v.hidesExplicit⟩]

/-- The pieces of a visibility. -/
def IsForm (room : Nat) (v : Visibility) (pieces : List Bytes) : Prop :=
  IsRecord v.fieldForms room pieces

/-- A visibility of which the fields with some numbers have been read. -/
def readSoFar (v : Visibility) (seen : List Nat) : Partial where
  hidesNotSafe? := if 0 ∈ seen then some v.hidesNotSafe else none
  hidesExplicit? := if 1 ∈ seen then some v.hidesExplicit else none

/-- A visibility all of whose fields have been read. -/
def whole (v : Visibility) : Partial :=
  ⟨some v.hidesNotSafe, some v.hidesExplicit⟩

theorem fillFrom_readSoFar (v : Visibility) :
    FillFrom v.readSoFar 0 format.fields v.fieldForms :=
  .cons (fills_of (fun _ => rfl) (by simp [readSoFar]) fun _ h => h.takes)
    (.cons (fills_of (fun _ => rfl) (by simp [readSoFar]) fun _ h => h.takes) .nil)

theorem readSoFar_eq_whole (v : Visibility) {seen : List Nat}
    (h : ∀ i < v.fieldForms.length, i ∈ seen) : v.readSoFar seen = v.whole := by
  have hmem (i : Nat) (hi : i < 2) : i ∈ seen := h i hi
  simp [readSoFar, whole, hmem]

theorem IsForm.takes {room : Nat} {v : Visibility} {pieces : List Bytes} (h : v.IsForm room pieces) :
    Takes (read room) pieces v := by
  have hnodup : ["hide_unsafe", "hide_explicit"].Nodup := by decide
  exact (IsRecord.takes v.fillFrom_readSoFar hnodup (fun _ => v.readSoFar_eq_whole) h).bind_pure rfl

end Visibility

namespace Store

/-- The fields of a store. A visibility lies within the record of the store, and that of a user also
within a map, which takes up as much of the room for values within one another. -/
def fieldForms (s : Store) : List FieldForm :=
  [⟨"next_id", IsNumber s.nextId⟩,
    ⟨"tags", IsMap IsText IsNumber s.tags⟩,
    ⟨"aliases", IsMap IsText IsNumber s.aliases⟩,
    ⟨"preferences", IsMap IsNumber (Visibility.IsForm (depthLimit - 3)) s.preferences⟩,
    ⟨"anonymous", s.anonymous.IsForm (depthLimit - 2)⟩]

/-- The pieces of a store. -/
def IsForm (s : Store) (pieces : List Bytes) : Prop :=
  IsRecord s.fieldForms (depthLimit - 1) pieces

/-- A store of which the fields with some numbers have been read. -/
def readSoFar (s : Store) (seen : List Nat) : Store.Partial where
  nextId? := if 0 ∈ seen then some s.nextId else none
  tags? := if 1 ∈ seen then some s.tags else none
  aliases? := if 2 ∈ seen then some s.aliases else none
  preferences? := if 3 ∈ seen then some s.preferences else none
  anonymous? := if 4 ∈ seen then some s.anonymous else none

/-- A store all of whose fields have been read. -/
def whole (s : Store) : Store.Partial :=
  ⟨some s.nextId, some s.tags, some s.aliases, some s.preferences, some s.anonymous⟩

theorem fillFrom_readSoFar (s : Store) : FillFrom s.readSoFar 0 format.fields s.fieldForms := by
  have hnames {m : SortedMap String Id} {pieces : List Bytes} (h : IsMap IsText IsNumber m pieces) :
      Takes (readMap readText readUInt64) pieces m :=
    h.takes (fun _ _ => IsText.takes) fun _ _ => IsNumber.takes
  refine .cons (fills_of (fun _ => rfl) (by simp [readSoFar]) fun _ h => h.takes) ?_
  refine .cons (fills_of (fun _ => rfl) (by simp [readSoFar]) fun _ h => hnames h) ?_
  refine .cons (fills_of (fun _ => rfl) (by simp [readSoFar]) fun _ h => hnames h) ?_
  refine .cons (fills_of (fun _ => rfl) (by simp [readSoFar]) fun _ h => ?_) ?_
  · exact h.takes (fun _ _ => IsNumber.takes) fun _ _ => Visibility.IsForm.takes
  · exact .cons (fills_of (fun _ => rfl) (by simp [readSoFar]) fun _ h => h.takes) .nil

theorem readSoFar_eq_whole (s : Store) {seen : List Nat}
    (h : ∀ i < s.fieldForms.length, i ∈ seen) : s.readSoFar seen = s.whole := by
  have hmem (i : Nat) (hi : i < 5) : i ∈ seen := h i hi
  simp [readSoFar, whole, hmem]

theorem IsForm.takes {s : Store} {pieces : List Bytes} (h : s.IsForm pieces) :
    Takes read pieces s := by
  have hnodup : ["next_id", "tags", "aliases", "preferences", "anonymous"].Nodup := by decide
  exact (IsRecord.takes s.fillFrom_readSoFar hnodup (fun _ => s.readSoFar_eq_whole) h).bind_pure rfl

theorem load_eq_ok_iff {bytes : Bytes} {s : Store} :
    load bytes = .ok s ↔ ∃ rest, read bytes = .ok (s, rest) := by
  show Except.map Prod.fst (read bytes) = .ok s ↔ _
  cases read bytes with
  | error e => simp [Except.map]
  | ok found =>
      obtain ⟨s', rest⟩ := found
      simp [Except.map]

/-- Bytes that are a store in one of its forms. -/
def Encodes (s : Store) (bytes : Bytes) : Prop :=
  ∃ pieces, s.IsForm pieces ∧ pieces.flatten = bytes

end Store

/-- A store is loaded from its bytes in any form, whatever follows them. -/
theorem load_of_encodes {s : Store} {bytes : Bytes} (h : s.Encodes bytes) (rest : Bytes) :
    Store.load (bytes ++ rest) = .ok s := by
  obtain ⟨pieces, hform, rfl⟩ := h
  exact Store.load_eq_ok_iff.mpr ⟨rest, hform.takes.consumes rest⟩

/-- A store as a map in no order, with widths that are not the shortest, keys that mean no field and a
name that has two values. -/
theorem load_of_encodes_of_unordered_map :
    let s : Store :=
      { Store.empty with nextId := 5, tags := .ofList [("a", 1)], anonymous := ⟨false, true⟩ }
    let bytes : Bytes :=
      [0x87, 0xa9] ++ Text.utf8 "anonymous" ++ [0x82, 0x01, 0xc3, 0xc4, 0x0b] ++
      Text.utf8 "hide_unsafe" ++ [0xc2, 0x07, 0x91, 0x81, 0xca, 0, 0, 0, 0, 0xff] ++
      [0x01, 0xde, 0, 2, 0xa1, 0x61, 0xd0, 2, 0xc4, 1, 0x61, 0xcd, 0, 1] ++
      [0xa1, 0x78, 0xc0, 0x03, 0x80, 0xcc, 0x02, 0x80, 0x00, 0xd3, 0, 0, 0, 0, 0, 0, 0, 5]
    s.Encodes bytes ∧ Store.load (bytes ++ [0xc1]) = .ok s := by
  intro s bytes
  have hanonymous : s.anonymous.IsForm (depthLimit - 2) _ :=
    .map (.smallMap (by decide))
      (.field (i := 1) (.number (by decide)) (.smallUnsigned (by decide)) rfl
        (IsBool.boolean (.boolean true))
      (.field (i := 0) (.binary rfl) (@Item.Form.binary 1 0xc4 _ (by decide) (by decide +kernel)) rfl
        (IsBool.boolean (.boolean false))
      .nil))
      (by decide)
  have hother : IsValue 2 _ :=
    .array (.smallArray (by decide)) (List.forall_mem_singleton.mpr
      (.map (.smallMap (Nat.one_lt_succ_succ _)) rfl (List.forall_mem_cons.mpr
        ⟨@IsValue.single 0 .float _ trivial (@Item.Form.float 0xca [0, 0, 0, 0] (by decide)),
          List.forall_mem_singleton.mpr
            (@IsValue.single 0 (.signed (-1)) _ trivial (.smallNegative (by decide) (by decide)))⟩)))
  have hnothing : IsValue 0 _ := @IsValue.single 0 .nothing _ trivial .nothing
  have hsize : (Item.map (List.length [("a", (2 : Id)), ("a", 1)])).Form _ :=
    @Item.Form.map 2 2 0xde (by decide) (by decide)
  have hnames : AreEntries IsText IsNumber [("a", 2), ("a", 1)] _ :=
    .cons (.text (.shortText (by decide +kernel)))
      (.signed (@Item.Form.signed 1 0xd0 2 (by decide) (by decide) (by decide)))
      (.cons (.binary (@Item.Form.binary 1 0xc4 _ (by decide) (by decide +kernel)))
        (.unsigned (@Item.Form.unsigned 2 1 0xcd (by decide) (by decide))) .nil)
  have hlast : s.tags = .ofList [("a", 2), ("a", 1)] := by decide +kernel
  have htags : IsMap IsText IsNumber s.tags _ :=
    .entries hsize hnames fun key => by rw [hlast, SortedMap.get?_ofList]
  have haliases : IsMap IsText IsNumber s.aliases _ :=
    .entries (.smallMap (by decide)) .nil fun _ => rfl
  have hpreferences : IsMap IsNumber (Visibility.IsForm (depthLimit - 3)) s.preferences _ :=
    .entries (.smallMap (by decide)) .nil fun _ => rfl
  have hnextId : IsNumber s.nextId _ :=
    .signed (@Item.Form.signed 8 0xd3 5 (by decide) (by decide) (by decide))
  have hencodes : s.Encodes bytes := by
    refine ⟨_, .map (.smallMap (by decide))
      (.field (i := 4) (.text rfl) (.shortText (by decide +kernel)) rfl hanonymous
      (.other (@KeyMeans.otherNumber _ 7 (by decide)) (.smallUnsigned (by decide)) hother (by decide)
      (.field (i := 1) (.number (by decide)) (.smallUnsigned (by decide)) rfl htags
      (.other (@KeyMeans.otherText _ [0x78] (by decide +kernel)) (.shortText (by decide)) hnothing
        (by decide)
      (.field (i := 3) (.number (by decide)) (.smallUnsigned (by decide)) rfl hpreferences
      (.field (i := 2) (.number (by decide)) (@Item.Form.unsigned 1 2 0xcc (by decide) (by decide)) rfl
        haliases
      (.field (i := 0) (.number (by decide)) (.smallUnsigned (by decide)) rfl hnextId
      .nil))))))) (by decide), ?_⟩
    decide +kernel
  exact ⟨hencodes, load_of_encodes hencodes [0xc1]⟩

/-- The number of a field, and that of a key which means none, have to be given without a sign: in
the forms of signed numbers they are refused, although the same bytes are good for a counter. -/
theorem load_of_signed_keys :
    let s : Store := { Store.empty with nextId := 5, anonymous := ⟨false, true⟩ }
    let fields : Bytes := [0x01, 0x80, 0x02, 0x80, 0x03, 0x80, 0x04, 0x92, 0xc2, 0xc3]
    let refusal (n : Int) : ReadError := .mistake (.wrongType (.integer n) "field identifier")
    IsNumber 0 [[0xd0, 0x00]] ∧
    Store.load ([0x85, 0x00, 0x05] ++ fields) = .ok s ∧
    Store.load ([0x85, 0xd0, 0x00, 0x05] ++ fields) = .error (refusal 0) ∧
    Store.load ([0x86, 0x07, 0xc0, 0x00, 0x05] ++ fields) = .ok s ∧
    Store.load ([0x86, 0xff, 0xc0, 0x00, 0x05] ++ fields) = .error (refusal (-1)) := by
  intro s fields refusal
  refine ⟨.signed (@Item.Form.signed 1 0xd0 0 (by decide) (by decide) (by decide)), ?_⟩
  refine ⟨?_, ?_, ?_, ?_⟩ <;> decide +kernel

end TagQuery
