import TagQuery.Proofs.History

/-!
What each change does to a store when it is not refused, and what the store answers then. A name
that is free stands neither for a tag nor for an alias, and no change lets it stand for both.
-/

namespace TagQuery.Store

open Text

variable {s s' : Store} {change : Change} {name : String} {id : Id}

/-- A folded name that stands neither for a tag nor for an alias. -/
def IsFree (s : Store) (name : String) : Prop :=
  s.tags.get? name = none ∧ s.aliases.get? name = none

theorem isTaken_eq_false_iff : s.isTaken name = false ↔ s.IsFree name := by
  simp [isTaken, SortedMap.contains, IsFree]

/-- The changes that are not refused, with the store after them. -/
inductive Accepts (s : Store) : Change → Store → Prop where
  | createTag {name : String} (hfree : s.IsFree (lowercase name)) :
      Accepts s (.createTag name)
        { s with nextId := s.nextId + 1, tags := s.tags.insert (lowercase name) s.nextId }
  | renameTag {source target : String} {id : Id} (hfree : s.IsFree (lowercase target))
      (htag : s.tags.get? (lowercase source) = some id) :
      Accepts s (.renameTag source target)
        { s with tags := (s.tags.erase (lowercase source)).insert (lowercase target) id }
  | addAlias {name target : String} {id : Id} (hfree : s.IsFree (lowercase name))
      (htarget : s.resolve target = some id) :
      Accepts s (.addAlias name target)
        { s with aliases := s.aliases.insert (lowercase name) id }
  | setPreferences (user : Id) (visibility : Visibility) :
      Accepts s (.setPreferences user visibility) (s.setPreferences user visibility)
  | setAnonymous (visibility : Visibility) :
      Accepts s (.setAnonymous visibility) (s.setAnonymous visibility)

theorem createTag_eq_ok_iff :
    s.createTag name = .ok (id, s') ↔
      s.IsFree (lowercase name) ∧ id = s.nextId ∧
        s' = { s with nextId := s.nextId + 1, tags := s.tags.insert (lowercase name) s.nextId } := by
  rw [← isTaken_eq_false_iff]
  unfold createTag
  dsimp only
  split_ifs with htaken
  · simp [htaken]
  · simp [htaken, eq_comm]

theorem renameTag_eq_ok_iff {source target : String} :
    s.renameTag source target = .ok s' ↔
      s.IsFree (lowercase target) ∧ ∃ id, s.tags.get? (lowercase source) = some id ∧
        s' = { s with tags := (s.tags.erase (lowercase source)).insert (lowercase target) id } := by
  rw [← isTaken_eq_false_iff]
  unfold renameTag
  dsimp only
  split_ifs with htaken
  · simp [htaken]
  · cases s.tags.get? (lowercase source) with
    | none => simp
    | some id => simp [htaken, eq_comm]

theorem addAlias_eq_ok_iff {target : String} :
    s.addAlias name target = .ok s' ↔
      s.IsFree (lowercase name) ∧ ∃ id, s.resolve target = some id ∧
        s' = { s with aliases := s.aliases.insert (lowercase name) id } := by
  rw [← isTaken_eq_false_iff]
  unfold addAlias
  dsimp only
  split_ifs with htaken
  · simp [htaken]
  · cases s.resolve target with
    | none => simp
    | some id => simp [htaken, eq_comm]

theorem apply_eq_ok_iff : change.apply s = .ok s' ↔ s.Accepts change s' := by
  constructor
  · intro h
    cases change with
    | createTag name =>
        cases hcreate : s.createTag name with
        | error e =>
            rw [Change.apply, hcreate] at h
            cases h
        | ok made =>
            rw [Change.apply, hcreate] at h
            cases h
            obtain ⟨hfree, -, heq⟩ := createTag_eq_ok_iff.mp hcreate
            exact heq ▸ .createTag hfree
    | renameTag source target =>
        obtain ⟨hfree, id, htag, rfl⟩ := renameTag_eq_ok_iff.mp h
        exact .renameTag hfree htag
    | addAlias name target =>
        obtain ⟨hfree, id, htarget, rfl⟩ := addAlias_eq_ok_iff.mp h
        exact .addAlias hfree htarget
    | setPreferences user visibility =>
        cases h
        exact .setPreferences user visibility
    | setAnonymous visibility =>
        cases h
        exact .setAnonymous visibility
  · rintro (hfree | ⟨hfree, htag⟩ | ⟨hfree, htarget⟩ | _ | _)
    · rw [Change.apply, createTag_eq_ok_iff.mpr ⟨hfree, rfl, rfl⟩]
      rfl
    · exact renameTag_eq_ok_iff.mpr ⟨hfree, _, htag, rfl⟩
    · exact addAlias_eq_ok_iff.mpr ⟨hfree, _, htarget, rfl⟩
    · rfl
    · rfl

theorem after_of_apply_error {e : StoreError} (h : change.apply s = .error e) :
    s.after change = s := by
  rw [after, h]

theorem Accepts.after_eq (h : s.Accepts change s') : s.after change = s' := by
  rw [after, apply_eq_ok_iff.mpr h]

/-- A change is refused and leaves the store as it is, or it is accepted. -/
theorem after_cases (s : Store) (change : Change) :
    ((∃ e, change.apply s = .error e) ∧ s.after change = s) ∨ s.Accepts change (s.after change) := by
  cases h : change.apply s with
  | error e => exact Or.inl ⟨⟨e, rfl⟩, after_of_apply_error h⟩
  | ok s' =>
      have haccepts := apply_eq_ok_iff.mp h
      exact Or.inr (haccepts.after_eq.symm ▸ haccepts)

/-- What holds of a store and of what it becomes by each accepted change holds after any change. -/
theorem after_of_forall_accepts (P : Store → Prop) (hs : P s)
    (haccepts : ∀ s', s.Accepts change s' → P s') : P (s.after change) := by
  rcases s.after_cases change with ⟨-, hsame⟩ | h
  · rwa [hsame]
  · exact haccepts _ h

/-- No name stands for a tag and for an alias. -/
def NamesApart (s : Store) : Prop :=
  ∀ name, s.tags.get? name = none ∨ s.aliases.get? name = none

theorem namesApart_empty : Store.empty.NamesApart :=
  fun _ => Or.inl rfl

theorem NamesApart.of_accepts (h : s.NamesApart) (haccepts : s.Accepts change s') :
    s'.NamesApart := by
  intro other
  cases haccepts with
  | @createTag name hfree =>
      dsimp only
      rw [SortedMap.get?_insert]
      by_cases hother : other = lowercase name
      · exact Or.inr (hother ▸ hfree.2)
      · rw [if_neg hother]
        exact h other
  | @renameTag source target id hfree htag =>
      dsimp only
      rw [SortedMap.get?_insert, SortedMap.get?_erase]
      by_cases hother : other = lowercase target
      · exact Or.inr (hother ▸ hfree.2)
      · rw [if_neg hother]
        split_ifs
        · exact Or.inl rfl
        · exact h other
  | @addAlias name target id hfree htarget =>
      dsimp only
      rw [SortedMap.get?_insert]
      by_cases hother : other = lowercase name
      · exact Or.inl (hother ▸ hfree.1)
      · rw [if_neg hother]
        exact h other
  | setPreferences => exact h other
  | setAnonymous => exact h other

theorem NamesApart.after (h : s.NamesApart) (change : Change) : (s.after change).NamesApart :=
  after_of_forall_accepts NamesApart h fun _ => h.of_accepts

end TagQuery.Store
