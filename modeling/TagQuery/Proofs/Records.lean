import TagQuery.Proofs.Encodings

/-!
All the ways to write a record: as an array of its fields, or as a map in which they stand in any order
under their names or their numbers, with other entries among them. The states of a reader are told by
the fields that it has seen, and each field that it reads adds one to these.
-/

namespace TagQuery.MessagePack

/-- A field of a record by its name and the forms of its value. -/
structure FieldForm where
  name : String
  IsForm : List Bytes → Prop

/-- The number of the field that a key means, if it means one. A field can be meant by its name or
its number, which is then given as one that has no sign. -/
inductive KeyMeans (names : List String) : Item → Option Nat → Prop where
  | text {i : Nat} {name : String} (h : names[i]? = some name) :
      KeyMeans names (.text (Text.utf8 name)) (some i)
  | binary {i : Nat} {name : String} (h : names[i]? = some name) :
      KeyMeans names (.binary (Text.utf8 name)) (some i)
  | number {i : Nat} (h : i < names.length) : KeyMeans names (.unsigned i) (some i)
  | otherText {bytes : Bytes} (h : ∀ name ∈ names, Text.utf8 name ≠ bytes) :
      KeyMeans names (.text bytes) none
  | otherBinary {bytes : Bytes} (h : ∀ name ∈ names, Text.utf8 name ≠ bytes) :
      KeyMeans names (.binary bytes) none
  | otherNumber {n : Nat} (h : names.length ≤ n) : KeyMeans names (.unsigned n) none

/-- The entries of a map that is a record, with the fields in the order in which they come. Other keys
have values in which others are nested less deep than there is room for. -/
inductive AreFields (forms : List FieldForm) (room : Nat) :
    (size : Nat) → (order : List Nat) → List Bytes → Prop where
  | nil : AreFields forms room 0 [] []
  | field {size i : Nat} {order : List Nat} {key : Item} {k : Bytes} {form : FieldForm}
      {value rest : List Bytes} (hkey : KeyMeans (forms.map FieldForm.name) key (some i))
      (hk : key.Form k) (hform : forms[i]? = some form) (hvalue : form.IsForm value)
      (hrest : AreFields forms room size order rest) :
      AreFields forms room (size + 1) (i :: order) ([k] ++ (value ++ rest))
  | other {size depth : Nat} {order : List Nat} {key : Item} {k : Bytes} {value rest : List Bytes}
      (hkey : KeyMeans (forms.map FieldForm.name) key none) (hk : key.Form k)
      (hvalue : IsValue depth value) (hdepth : depth < room)
      (hrest : AreFields forms room size order rest) :
      AreFields forms room (size + 1) order ([k] ++ (value ++ rest))

/-- A record is an array of exactly its fields in order, or a map in which each of them comes once. -/
inductive IsRecord (forms : List FieldForm) (room : Nat) : List Bytes → Prop where
  | array {head : Bytes} {values : List (List Bytes)} (hhead : (Item.array forms.length).Form head)
      (hvalues : List.Forall₂ FieldForm.IsForm forms values) :
      IsRecord forms room (head :: values.flatten)
  | map {size : Nat} {order : List Nat} {head : Bytes} {rest : List Bytes}
      (hhead : (Item.map size).Form head) (hfields : AreFields forms room size order rest)
      (honce : order.Perm (List.range forms.length)) : IsRecord forms room (head :: rest)

section Records

variable {σ : Type} {state : List Nat → σ}

/-- Reading a field goes from any state in which it is not set to the one in which it is set too. -/
structure Fills (state : List Nat → σ) (i : Nat) (field : RecordField σ) (form : FieldForm) : Prop where
  name_eq : field.name = form.name
  isSet_eq : ∀ seen, field.isSet (state seen) = decide (i ∈ seen)
  takes : ∀ {pieces}, form.IsForm pieces → ∀ seen,
    Takes (field.read (state seen)) pieces (state (i :: seen))

theorem fills_of {α : Type} {name : String} {get : σ → Option α} {set : σ → α → σ} {value : Reader α}
    {IsForm : List Bytes → Prop} {i : Nat} {a : α}
    (hget : ∀ seen, get (state seen) = if i ∈ seen then some a else none)
    (hset : ∀ seen, set (state seen) a = state (i :: seen))
    (htakes : ∀ pieces, IsForm pieces → Takes value pieces a) :
    Fills state i (.of name get set value) ⟨name, IsForm⟩ where
  name_eq := rfl
  isSet_eq seen := by
    show (get (state seen)).isSome = decide (i ∈ seen)
    rw [hget]
    split_ifs with hi <;> simp [hi]
  takes hform seen := (htakes _ hform).bind_pure (congrArg Pure.pure (hset seen))

/-- The fields of a record, numbered from one of them on, fill a state. -/
inductive FillFrom (state : List Nat → σ) : Nat → List (RecordField σ) → List FieldForm → Prop where
  | nil {i : Nat} : FillFrom state i [] []
  | cons {i : Nat} {field : RecordField σ} {form : FieldForm} {fields : List (RecordField σ)}
      {forms : List FieldForm} (hfield : Fills state i field form)
      (hfields : FillFrom state (i + 1) fields forms) :
      FillFrom state i (field :: fields) (form :: forms)

variable {format : RecordFormat σ} {fields : List (RecordField σ)} {forms : List FieldForm}
  {whole : σ} {size room i : Nat}

theorem FillFrom.name_eq (h : FillFrom state i fields forms) :
    fields.map RecordField.name = forms.map FieldForm.name := by
  induction h with
  | nil => rfl
  | cons hfield _ ih => rw [List.map_cons, List.map_cons, hfield.name_eq, ih]

theorem FillFrom.get (h : FillFrom state i fields forms) {j : Nat} {form : FieldForm}
    (hform : forms[j]? = some form) :
    ∃ field, fields[j]? = some field ∧ Fills state (i + j) field form := by
  induction h generalizing j with
  | nil => cases hform
  | @cons i field _ fields forms hfield _ ih =>
      cases j with
      | zero =>
          cases hform
          exact ⟨field, rfl, hfield⟩
      | succ j =>
          obtain ⟨field', hget, hfills⟩ := ih hform
          exact ⟨field', hget, by rwa [Nat.add_right_comm] at hfills⟩

theorem FillFrom.takes_readInOrder (h : FillFrom state i fields forms) {values : List (List Bytes)}
    (hvalues : List.Forall₂ FieldForm.IsForm forms values) (hsize : i + forms.length ≤ size)
    (seen : List Nat) :
    Takes (format.readInOrder size i fields (state seen)) values.flatten
      (state ((List.range' i forms.length).reverse ++ seen)) := by
  induction h generalizing values seen with
  | nil =>
      cases hvalues
      exact .pure _
  | @cons i field form fields forms hfield _ ih =>
      cases hvalues with
      | cons hvalue hvalues =>
          rw [List.length_cons] at hsize ⊢
          rw [RecordFormat.readInOrder, if_pos (by omega), List.range'_succ, List.reverse_cons,
            List.append_assoc]
          exact (hfield.takes hvalue seen).bind (ih hvalues (by omega) (i :: seen))

theorem utf8_injective {s s' : String} (h : Text.utf8 s = Text.utf8 s') : s = s' :=
  Option.some.inj ((ofUtf8?_utf8 s).symm.trans (h ▸ ofUtf8?_utf8 s'))

/-- Fields with different names are found by their names. -/
theorem find?_name {name : String} (hnodup : (fields.map RecordField.name).Nodup)
    (h : (fields.map RecordField.name)[i]? = some name) :
    fields.find? (Text.utf8 ·.name = Text.utf8 name) = fields[i]? := by
  induction fields generalizing i with
  | nil => cases h
  | cons field fields ih =>
      obtain ⟨hfield, hfields⟩ := List.nodup_cons.mp hnodup
      cases i with
      | zero =>
          cases h
          simp
      | succ i =>
          have hne : field.name ≠ name := fun heq => hfield (heq ▸ List.mem_of_getElem? h)
          rw [List.find?_cons_of_neg (by simpa using fun heq => hne (utf8_injective heq))]
          exact ih hfields h

theorem fieldOfKey_of_keyMeans {key : Item} {i? : Option Nat}
    (hnodup : (format.fields.map RecordField.name).Nodup)
    (h : KeyMeans (format.fields.map RecordField.name) key i?) :
    format.fieldOfKey key = .ok (i?.bind fun i => format.fields[i]?) := by
  have hnone {bytes : Bytes} (h : ∀ name ∈ format.fields.map RecordField.name, Text.utf8 name ≠ bytes) :
      format.fields.find? (Text.utf8 ·.name = bytes) = none :=
    List.find?_eq_none.mpr fun field hfield => by simpa using h _ (List.mem_map_of_mem hfield)
  cases h with
  | text h | binary h => exact congrArg Except.ok (find?_name hnodup h)
  | number => rfl
  | otherText h | otherBinary h => exact congrArg Except.ok (hnone h)
  | otherNumber h =>
      rw [List.length_map] at h
      exact congrArg Except.ok (List.getElem?_eq_none h)

theorem AreFields.takes (hfill : FillFrom state 0 format.fields forms)
    (hnodup : (forms.map FieldForm.name).Nodup) {order : List Nat} {pieces : List Bytes}
    (h : AreFields forms room size order pieces) {seen : List Nat} (hnew : (order ++ seen).Nodup) :
    Takes (format.readEntriesOf room size (state seen)) pieces (state (order.reverse ++ seen)) := by
  have hkeys {key : Item} {i? : Option Nat} (hkey : KeyMeans (forms.map FieldForm.name) key i?) :
      format.fieldOfKey key = .ok (i?.bind fun i => format.fields[i]?) := by
    rw [← hfill.name_eq] at hnodup hkey
    exact fieldOfKey_of_keyMeans hnodup hkey
  induction h generalizing seen with
  | nil => exact .pure _
  | @field size i order key k form value rest hkey hk hform hvalue _ ih =>
      obtain ⟨field, hfield, hfills⟩ := hfill.get hform
      rw [Nat.zero_add] at hfills
      have hmeans : format.fieldOfKey key = .ok (some field) := (hkeys hkey).trans (by simp [hfield])
      have hunseen : field.isSet (state seen) = false := by
        rw [hfills.isSet_eq, decide_eq_false_iff_not]
        exact fun hi => (List.nodup_cons.mp hnew).1 (List.mem_append_right _ hi)
      have hrest := ih (List.nodup_middle.mpr hnew)
      rw [List.reverse_cons, List.append_assoc]
      refine hk.takes.bind ((Takes.lift hmeans).bind (?_ : Takes _ (value ++ rest) _))
      simp only [hunseen]
      exact (hfills.takes hvalue seen).bind hrest
  | other hkey hk hvalue hdepth _ ih =>
      exact hk.takes.bind ((Takes.lift (hkeys hkey)).bind ((hvalue.takes_skip hdepth).bind (ih hnew)))

/-- However a record is written, reading it fills the state with all of its fields. -/
theorem IsRecord.takes (hfill : FillFrom state 0 format.fields forms)
    (hnodup : (forms.map FieldForm.name).Nodup)
    (hwhole : ∀ seen, (∀ i < forms.length, i ∈ seen) → state seen = whole) {pieces : List Bytes}
    (h : IsRecord forms room pieces) : Takes (format.read room (state [])) pieces whole := by
  cases h with
  | @array head values hhead hvalues =>
      have hall : ∀ i < forms.length, i ∈ (List.range' 0 forms.length).reverse ++ [] := by
        simp
      rw [← hwhole _ hall]
      exact hhead.takes.bind (hfill.takes_readInOrder hvalues (by omega) [])
  | @map size order head rest hhead hfields honce =>
      have hall : ∀ i < forms.length, i ∈ order.reverse ++ [] := by
        simpa using fun i hi => honce.mem_iff.mpr (List.mem_range.mpr hi)
      have hunique : (order ++ []).Nodup := by
        simpa using honce.nodup_iff.mpr List.nodup_range
      rw [← hwhole _ hall]
      exact hhead.takes.bind (hfields.takes hfill hnodup hunique)

end Records

end TagQuery.MessagePack
