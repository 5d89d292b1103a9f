import TagQuery.Proofs.Reading
import TagQuery.Proofs.Recasing

/-!
Which texts are values of search fields, said without the readers: keywords, sort keys with their
endings, and decimal numbers below 2^64. Letters are read in either case, but for the ASCII letters
alone.
-/

namespace TagQuery

open Text

namespace Text

theorem toLower_toLower (s : String) : s.toLower.toLower = s.toLower := by
  rw [← String.toList_inj, toList_toLower, toList_toLower, List.map_map]
  congr 1
  funext c
  exact apply_toLower (f := Char.toLower) (by decide) c

end Text

section

variable {α : Type} {values : List α} {keyword : α → String} {text : String}

theorem findKeyword_eq_none_iff :
    findKeyword values keyword text = none ↔ text.toLower ∉ values.map keyword := by
  simp [findKeyword]

/-- A keyword is found as the value that it is the keyword of, if no two values have it. -/
theorem findKeyword_eq_some_iff (hvalues : ∀ value, value ∈ values)
    (hkeywords : (values.map keyword).Nodup) {value : α} :
    findKeyword values keyword text = some value ↔ keyword value = text.toLower := by
  constructor
  · exact keyword_of_findKeyword
  · intro h
    cases hfound : findKeyword values keyword text with
    | none =>
        have hmem : text.toLower ∈ values.map keyword := h ▸ List.mem_map_of_mem (hvalues value)
        exact absurd hmem (findKeyword_eq_none_iff.mp hfound)
    | some other =>
        rw [List.inj_on_of_nodup_map hkeywords (hvalues other) (hvalues value)
          ((keyword_of_findKeyword hfound).trans h.symm)]

end

theorem Field.ofName?_eq_some_iff {name : String} {field : Field} :
    Field.ofName? name = some field ↔ field.keyword = name.toLower :=
  findKeyword_eq_some_iff (fun field => by cases field <;> decide) (by decide +kernel)

theorem SortKey.ofKeyword?_eq_some_iff {text : String} {key : SortKey} :
    SortKey.ofKeyword? text = some key ↔ key.keyword = text.toLower :=
  findKeyword_eq_some_iff (fun key => by cases key <;> decide) (by decide +kernel)

theorem Rating.ofKeyword?_eq_none_iff {text : String} :
    Rating.ofKeyword? text = none ↔ text.toLower ∉ ["general", "unsafe", "explicit"] :=
  findKeyword_eq_none_iff

theorem PostStatus.ofKeyword?_eq_none_iff {text : String} :
    PostStatus.ofKeyword? text = none ↔ text.toLower ∉ ["ok", "deleted"] :=
  findKeyword_eq_none_iff

theorem FileType.ofKeyword?_eq_none_iff {text : String} :
    FileType.ofKeyword? text = none ↔ text.toLower ∉ ["image", "video"] :=
  findKeyword_eq_none_iff

/-- The keys by which posts can be sorted, as they are written. -/
def sortKeys : List (String × SortKey) :=
  [("id", .id), ("size", .size), ("duration", .duration), ("width", .width), ("height", .height)]

/-- What can follow a sort key, with the direction that it asks for. -/
def sortEndings : List (String × Direction) :=
  [("", .descending), ("_asc", .ascending), ("_desc", .descending)]

/-- A text is a sort key with one of the endings, in letters of either case. -/
def SortsBy (text : String) (order : Order) : Prop :=
  ∃ word ending, (word, order.key) ∈ sortKeys ∧ (ending, order.direction) ∈ sortEndings ∧
    text.toLower = word ++ ending

namespace Order

theorem withoutEnding?_eq_some_iff {ending text rest : List Char} :
    withoutEnding? ending text = some rest ↔ text = rest ++ ending := by
  unfold withoutEnding?
  rw [Option.ite_none_right_eq_some, List.isSuffixOf_iff_suffix, Option.some.injEq]
  constructor
  · rintro ⟨⟨before, rfl⟩, rfl⟩
    simp
  · rintro rfl
    simp

theorem ofText?_append_ending :
    ∀ word ∈ sortKeys, ∀ ending ∈ sortEndings,
      ofText? (word.1 ++ ending.1) = some ⟨word.2, ending.2⟩ := by
  decide +kernel

theorem ofText?_toLower (text : String) : ofText? text.toLower = ofText? text := by
  unfold ofText?
  rw [toLower_toLower]

/-- A text that is a sort key in front of an ending. -/
theorem sortsBy_of_ofKeyword? {text ending : String} {chars : List Char} {key : SortKey}
    {direction : Direction} (hending : (ending, direction) ∈ sortEndings)
    (htext : text.toLower.toList = chars ++ ending.toList)
    (hkey : SortKey.ofKeyword? (String.ofList chars) = some key) : SortsBy text ⟨key, direction⟩ := by
  have hword : (key.keyword, key) ∈ sortKeys := by cases key <;> decide
  have hlower : chars.map Char.toLower = chars := by
    have hwhole := congrArg String.toList (toLower_toLower text)
    rw [toList_toLower, htext, List.map_append] at hwhole
    exact (List.append_inj hwhole (List.length_map _)).1
  have hkeyword : key.keyword = String.ofList chars := by
    rw [SortKey.ofKeyword?_eq_some_iff.mp hkey, toLower_ofList, hlower]
  refine ⟨key.keyword, ending, hword, hending, ?_⟩
  rw [← String.toList_inj, htext, String.toList_append, hkeyword, String.toList_ofList]

/-- A text is read as an order exactly if it is a sort key with one of the endings. -/
theorem ofText?_eq_some_iff {text : String} {order : Order} :
    ofText? text = some order ↔ SortsBy text order := by
  constructor
  · intro h
    unfold ofText? at h
    dsimp only at h
    have hupward : ("_asc", Direction.ascending) ∈ sortEndings := by decide
    have hdownward : ("_desc", Direction.descending) ∈ sortEndings := by decide
    have hplain : ("", Direction.descending) ∈ sortEndings := by decide
    cases hasc : withoutEnding? "_asc".toList text.toLower.toList with
    | some chars =>
        rw [hasc] at h
        obtain ⟨key, hkey, rfl⟩ := Option.map_eq_some_iff.mp h
        exact sortsBy_of_ofKeyword? hupward (withoutEnding?_eq_some_iff.mp hasc) hkey
    | none =>
        rw [hasc] at h
        obtain ⟨key, hkey, rfl⟩ := Option.map_eq_some_iff.mp h
        cases hdesc : withoutEnding? "_desc".toList text.toLower.toList with
        | some chars =>
            rw [hdesc] at hkey
            exact sortsBy_of_ofKeyword? hdownward (withoutEnding?_eq_some_iff.mp hdesc) hkey
        | none =>
            rw [hdesc] at hkey
            have htext : text.toLower.toList = text.toLower.toList ++ "".toList := by simp
            exact sortsBy_of_ofKeyword? hplain htext hkey
  · rintro ⟨word, ending, hword, hending, htext⟩
    have hread := ofText?_append_ending _ hword _ hending
    rw [← htext, ofText?_toLower] at hread
    exact hread

end Order

theorem SortsBy.unique {text : String} {order order' : Order} (h : SortsBy text order)
    (h' : SortsBy text order') : order = order' :=
  Option.some.inj
    ((Order.ofText?_eq_some_iff.mpr h).symm.trans (Order.ofText?_eq_some_iff.mpr h'))

/-- A key with two endings is no sort key, nor is one with a long s. -/
example : Order.ofText? "Width_ASC" = some ⟨.width, .ascending⟩ ∧
    Order.ofText? "id_desc_asc" = none ∧ Order.ofText? "ſize" = none := by
  decide +kernel

/-- A text is one or more of the digits from 0 to 9, which make up a number below 2^64. -/
structure IsDecimal (text : String) : Prop where
  ne_empty : text ≠ ""
  isDigit : ∀ c ∈ text.toList, c.isDigit
  lt : Nat.ofDigits 10 (text.toList.reverse.map digitValue) < 2 ^ 64

theorem exists_denotes_iff {text : String} : (∃ id, Denotes text id) ↔ IsDecimal text := by
  constructor
  · rintro ⟨id, hne, hdigits, hid⟩
    refine ⟨mt (fun hempty => ?_) hne, hdigits, hid ▸ id.toNat_lt⟩
    rw [hempty, String.toList_empty]
  · rintro ⟨hne, hdigits, hlt⟩
    exact ⟨.ofNat (Nat.ofDigits 10 (text.toList.reverse.map digitValue)),
      mt String.toList_eq_nil_iff.mp hne, hdigits, UInt64.toNat_ofNat_of_lt' hlt⟩

end TagQuery
