import TagQuery.Proofs.CaseFolding
import TagQuery.Proofs.Snapshots
import TagQuery.Proofs.StoreChanges

/-!
What holds of a store that has been changed and reloaded in any way since it was new: no name stands
for a tag and for an alias, all names are folded, the ids of the tags are those below the counter,
each with one name, and no alias stands for anything but a tag. So no id is given out twice.
-/

namespace TagQuery

namespace Store

open Text

variable {s s' : Store} {change : Change} {name : String} {id : Id}

/-- A map all of whose names are folded already. -/
def Folded (m : SortedMap String Id) : Prop :=
  ∀ name id, m.get? name = some id → lowercase name = name

theorem Folded.insert {m : SortedMap String Id} (h : Folded m) (name : String) (id : Id) :
    Folded (m.insert (lowercase name) id) := by
  intro other id' hother
  rw [SortedMap.get?_insert] at hother
  by_cases heq : other = lowercase name
  · rw [heq, lowercase_lowercase]
  · rw [if_neg heq] at hother
    exact h other id' hother

theorem Folded.erase {m : SortedMap String Id} (h : Folded m) (name : String) :
    Folded (m.erase name) := by
  intro other id hother
  rw [SortedMap.get?_erase] at hother
  split_ifs at hother
  exact h other id hother

/-- The ids of tags are the numbers below a bound, and each is that of one name. -/
structure Numbered (tags : SortedMap String Id) (bound : Nat) : Prop where
  lt : ∀ name id, tags.get? name = some id → id.toNat < bound
  owner : ∀ id : Id, id.toNat < bound → ∃! name, tags.get? name = some id

variable {tags : SortedMap String Id} {bound : Nat}

theorem Numbered.unique (h : Numbered tags bound) {name' : String}
    (hname : tags.get? name = some id) (hname' : tags.get? name' = some id) : name = name' :=
  (h.owner id (h.lt name id hname)).unique hname hname'

theorem numbered_of_unique (hlt : ∀ name id, tags.get? name = some id → id.toNat < bound)
    (howner : ∀ id : Id, id.toNat < bound → ∃ name, tags.get? name = some id)
    (hunique : ∀ name name' id, tags.get? name = some id → tags.get? name' = some id →
      name = name') : Numbered tags bound where
  lt := hlt
  owner id hid := by
    obtain ⟨name, hname⟩ := howner id hid
    exact ⟨name, hname, fun other hother => hunique other name id hother hname⟩

/-- A new name takes the number at the bound. -/
theorem Numbered.insert (h : Numbered tags bound) (hfree : tags.get? name = none)
    (hid : id.toNat = bound) : Numbered (tags.insert name id) (bound + 1) := by
  have hnew : ∀ other, tags.get? other ≠ some id := by
    intro other hother
    have := h.lt other id hother
    omega
  apply numbered_of_unique
  · intro other id' hother
    rw [SortedMap.get?_insert] at hother
    split_ifs at hother
    · cases hother
      omega
    · exact Nat.lt_succ_of_lt (h.lt other id' hother)
  · intro id' hlt
    by_cases heq : id' = id
    · exact ⟨name, by simp [SortedMap.get?_insert, heq]⟩
    · have hne : id'.toNat ≠ id.toNat := fun h => heq (UInt64.toNat_inj.mp h)
      obtain ⟨owner, howner, -⟩ := h.owner id' (by omega)
      have hname := SortedMap.ne_of_get?_eq_none howner hfree
      exact ⟨owner, by simpa [SortedMap.get?_insert, hname] using howner⟩
  · intro other other' id' hother hother'
    rw [SortedMap.get?_insert] at hother hother'
    split_ifs at hother hother' with hname hname' hname'
    · exact hname.trans hname'.symm
    · exact absurd (hother'.trans hother.symm) (hnew other')
    · exact absurd (hother.trans hother'.symm) (hnew other)
    · exact h.unique hother hother'

/-- A tag keeps its number when it takes another name. -/
theorem Numbered.rename (h : Numbered tags bound) {source : String}
    (hsource : tags.get? source = some id) (hfree : tags.get? name = none) :
    Numbered ((tags.erase source).insert name id) bound := by
  have hget : ∀ other, ((tags.erase source).insert name id).get? other =
      if other = name then some id else if other = source then none else tags.get? other :=
    fun other => by rw [SortedMap.get?_insert, SortedMap.get?_erase]
  apply numbered_of_unique
  · intro other id' hother
    rw [hget] at hother
    split_ifs at hother
    · cases hother
      exact h.lt source id hsource
    · exact h.lt other id' hother
  · intro id' hlt
    by_cases heq : id' = id
    · exact ⟨name, by simp [hget, heq]⟩
    · obtain ⟨owner, howner, -⟩ := h.owner id' hlt
      have hname := SortedMap.ne_of_get?_eq_none howner hfree
      have hne : owner ≠ source := fun h => heq (Option.some.inj (howner.symm.trans (h ▸ hsource)))
      exact ⟨owner, by simpa [hget, hname, hne] using howner⟩
  · intro other other' id' hother hother'
    rw [hget] at hother hother'
    split_ifs at hother hother' with hname hname' hold' hold hname' hold'
    · exact hname.trans hname'.symm
    · exact absurd (h.unique (hother'.trans hother.symm) hsource) hold'
    · exact absurd (h.unique (hother.trans hother'.symm) hsource) hold
    · exact h.unique hother hother'

/-! ### Consistent stores -/

/-- What a store keeps to, whatever it is asked. -/
structure Consistent (s : Store) : Prop where
  apart : s.NamesApart
  tags : Folded s.tags
  aliases : Folded s.aliases
  numbered : Numbered s.tags s.nextId.toNat
  targets : ∀ name id, s.aliases.get? name = some id → ∃ tag, s.tags.get? tag = some id

theorem consistent_empty : Store.empty.Consistent where
  apart := namesApart_empty
  tags := nofun
  aliases := nofun
  numbered := ⟨nofun, fun _ h => absurd h (Nat.not_lt_zero _)⟩
  targets := nofun

/-- Whatever a name resolves to is a tag. -/
theorem Consistent.exists_tag_of_resolve (h : s.Consistent) (hresolve : s.resolve name = some id) :
    ∃ tag, s.tags.get? tag = some id := by
  rcases Option.or_eq_some_iff.mp hresolve with htag | ⟨-, halias⟩
  · exact ⟨_, htag⟩
  · exact h.targets _ id halias

theorem toNat_add_one (h : id ≤ id + 1) : (id + 1).toNat = id.toNat + 1 := by
  rw [UInt64.le_iff_toNat_le, UInt64.toNat_add] at h
  rw [UInt64.toNat_add]
  have hone : (1 : UInt64).toNat = 1 := rfl
  omega

/-- A change that is accepted keeps a store consistent, unless the counter starts over. -/
theorem Consistent.of_accepts (h : s.Consistent) (haccepts : s.Accepts change s')
    (hcounter : s.nextId ≤ s'.nextId) : s'.Consistent := by
  have hapart := h.apart.of_accepts haccepts
  cases haccepts with
  | @createTag name hfree =>
      have hnext : (s.nextId + 1).toNat = s.nextId.toNat + 1 := toNat_add_one hcounter
      refine ⟨hapart, h.tags.insert name _, h.aliases, ?_, ?_⟩
      · exact hnext ▸ h.numbered.insert hfree.1 rfl
      · intro other id halias
        obtain ⟨tag, htag⟩ := h.targets other id halias
        have hne := SortedMap.ne_of_get?_eq_none htag hfree.1
        exact ⟨tag, by simpa [SortedMap.get?_insert, hne] using htag⟩
  | @renameTag source target id hfree hsource =>
      refine ⟨hapart, (h.tags.erase _).insert target id, h.aliases,
        h.numbered.rename hsource hfree.1, ?_⟩
      intro other id' halias
      obtain ⟨tag, htag⟩ := h.targets other id' halias
      by_cases heq : id' = id
      · exact ⟨lowercase target, by simp [SortedMap.get?_insert, heq]⟩
      · have hne := SortedMap.ne_of_get?_eq_none htag hfree.1
        have hne' : tag ≠ lowercase source :=
          fun h => heq (Option.some.inj (htag.symm.trans (h ▸ hsource)))
        exact ⟨tag, by simpa [SortedMap.get?_insert, SortedMap.get?_erase, hne, hne'] using htag⟩
  | @addAlias name target id hfree htarget =>
      refine ⟨hapart, h.tags, h.aliases.insert name id, h.numbered, ?_⟩
      intro other id' halias
      rw [SortedMap.get?_insert] at halias
      split_ifs at halias
      · cases halias
        exact h.exists_tag_of_resolve htarget
      · exact h.targets other id' halias
  | setPreferences => exact ⟨hapart, h.tags, h.aliases, h.numbered, h.targets⟩
  | setAnonymous => exact ⟨hapart, h.tags, h.aliases, h.numbered, h.targets⟩

/-- What happens to a store. -/
inductive Event where
  | change (change : Change)
  | reload

/-- A change that may be refused, or a store saved and loaded from its bytes, which takes names and
maps that are as short as their heads can say. -/
inductive Step : Store → Event → Store → Prop where
  | change (s : Store) (change : Change) : Step s (.change change) (s.after change)
  | reload {s s' : Store} (hstorable : s.IsStorable) (hload : load s.save = .ok s') :
      Step s .reload s'

/-- The id that a change gives to a new tag. -/
def Change.givenId? (s : Store) : Change → Option Id
  | .createTag name => (s.createTag name).toOption.map Prod.fst
  | _ => none

def Event.givenId? (s : Store) : Event → Option Id
  | .change change => change.givenId? s
  | .reload => none

/-- The ids that have been given to new tags, in order. -/
def givenIds (past : List (Moment Store Event)) : List Id :=
  past.filterMap fun m => m.event.givenId? m.before

theorem givenIds_snoc (past : List (Moment Store Event)) (m : Moment Store Event) :
    givenIds (past ++ [m]) = givenIds past ++ (m.event.givenId? m.before).toList := by
  unfold givenIds
  rw [List.filterMap_append]
  cases h : m.event.givenId? m.before with
  | none => simp [h]
  | some id => simp [h]

theorem givenId?_of_apply_error {e : StoreError} (h : change.apply s = .error e) :
    change.givenId? s = none := by
  cases change with
  | createTag name =>
      cases hcreate : s.createTag name with
      | error e => simp [Change.givenId?, hcreate, Except.toOption]
      | ok made =>
          rw [Change.apply, hcreate] at h
          cases h
  | _ => rfl

/-- An accepted change gives out the id at the counter and moves it on, or it does neither. -/
theorem Accepts.givenId?_cases (h : s.Accepts change s') :
    (change.givenId? s = none ∧ s'.nextId = s.nextId) ∨
    (change.givenId? s = some s.nextId ∧ s'.nextId = s.nextId + 1) := by
  cases h with
  | createTag hfree =>
      right
      refine ⟨?_, rfl⟩
      rw [Change.givenId?, createTag_eq_ok_iff.mpr ⟨hfree, rfl, rfl⟩]
      rfl
  | _ => exact Or.inl ⟨rfl, rfl⟩

/-- A consistent store, with the ids given out since it was new, which its counter has counted. -/
structure Accounted (past : List (Moment Store Event)) (s : Store) : Prop where
  consistent : s.Consistent
  givenIds : (givenIds past).map UInt64.toNat = List.range s.nextId.toNat

theorem Accounted.length_givenIds {past : List (Moment Store Event)} (h : Accounted past s) :
    (Store.givenIds past).length = s.nextId.toNat := by
  rw [← List.length_map UInt64.toNat, h.givenIds, List.length_range]

/-- A step keeps the account, as long as it does not give out more ids than there are. -/
theorem Accounted.snoc {past : List (Moment Store Event)} {event : Event} (h : Accounted past s)
    (hstep : Step s event s')
    (hfew : (Store.givenIds (past ++ [⟨s, event, s'⟩])).length < 2 ^ 64) :
    Accounted (past ++ [⟨s, event, s'⟩]) s' := by
  rw [givenIds_snoc, List.length_append, h.length_givenIds] at hfew
  cases hstep with
  | change change =>
      rcases s.after_cases change with ⟨⟨e, he⟩, hsame⟩ | haccepts
      · rw [hsame]
        refine ⟨h.consistent, ?_⟩
        rw [givenIds_snoc, Event.givenId?, givenId?_of_apply_error he]
        simpa using h.givenIds
      · rcases haccepts.givenId?_cases with ⟨hnone, hnext⟩ | ⟨hgiven, hnext⟩
        · refine ⟨h.consistent.of_accepts haccepts (hnext ▸ UInt64.le_refl _), ?_⟩
          rw [givenIds_snoc, Event.givenId?, hnone, hnext]
          simpa using h.givenIds
        · have hroom : s.nextId.toNat + 1 < 2 ^ 64 := by simpa [Event.givenId?, hgiven] using hfew
          have hcounter : s.nextId ≤ s.nextId + 1 := by
            rw [UInt64.le_iff_toNat_le, UInt64.toNat_add]
            have hone : (1 : UInt64).toNat = 1 := rfl
            omega
          refine ⟨h.consistent.of_accepts haccepts (hnext ▸ hcounter), ?_⟩
          rw [givenIds_snoc, Event.givenId?, hgiven, hnext, toNat_add_one hcounter, List.map_append,
            h.givenIds, List.range_succ]
          rfl
  | reload hstorable hload =>
      rw [load_save hstorable] at hload
      cases hload
      refine ⟨h.consistent, ?_⟩
      rw [givenIds_snoc]
      simpa [Event.givenId?] using h.givenIds

theorem accounted_of_run {past : List (Moment Store Event)} (h : Run Step .empty past s)
    (hfew : (givenIds past).length < 2 ^ 64) : Accounted past s := by
  induction h with
  | nil => exact ⟨consistent_empty, rfl⟩
  | @snoc past before after event _ hstep ih =>
      have hless : (givenIds past).length < 2 ^ 64 := by
        rw [givenIds_snoc, List.length_append] at hfew
        omega
      exact (ih hless).snoc hstep hfew

end Store

/-- A store that has been changed and reloaded in any way since it was new, and has given out fewer
ids than there are, is consistent. Its ids have been given out in order, each once, up to the
counter. -/
theorem consistent_of_run {past : List (Moment Store Store.Event)} {s : Store}
    (h : Run Store.Step .empty past s) (hfew : (Store.givenIds past).length < 2 ^ 64) :
    s.Consistent ∧ (Store.givenIds past).Nodup ∧
      (Store.givenIds past).map UInt64.toNat = List.range s.nextId.toNat := by
  have haccounted := Store.accounted_of_run h hfew
  refine ⟨haccounted.consistent, ?_, haccounted.givenIds⟩
  have hnodup := List.nodup_range (n := s.nextId.toNat)
  rw [← haccounted.givenIds] at hnodup
  exact hnodup.of_map _

/-- A name that ends in a sigma and an alias with a dotted capital I. After the tag has another name
the first one is free for another tag. -/
theorem consistent_of_run_of_folded_names :
    ∃ past s, Run Store.Step .empty past s ∧ Store.givenIds past = [0, 1] ∧ s.Consistent ∧
      s.tags.entries = [("ας", 1), ("ασα", 0)] ∧ s.aliases.entries = [("i̇", 0)] := by
  let s₁ := Store.empty.after (.createTag "ΑΣ")
  let s₂ := s₁.after (.addAlias "İ" "ας")
  let s₃ := s₂.after (.renameTag "ΑΣ" "ΑΣΑ")
  let s₄ := s₃.after (.createTag "ΑΣ")
  let past : List (Moment Store Store.Event) :=
    [⟨.empty, .change (.createTag "ΑΣ"), s₁⟩, ⟨s₁, .change (.addAlias "İ" "ας"), s₂⟩,
      ⟨s₂, .change (.renameTag "ΑΣ" "ΑΣΑ"), s₃⟩, ⟨s₃, .change (.createTag "ΑΣ"), s₄⟩,
      ⟨s₄, .reload, s₄⟩]
  have hstorable : s₄.IsStorable := by decide +kernel
  have hrun : Run Store.Step .empty past s₄ :=
    ((((Run.nil.snoc (.change _ _)).snoc (.change s₁ _)).snoc (.change s₂ _)).snoc
      (.change s₃ _)).snoc (.reload hstorable (Store.load_save hstorable))
  have hgiven : Store.givenIds past = [0, 1] := by decide +kernel
  have hfew : (Store.givenIds past).length < 2 ^ 64 := by
    rw [hgiven]
    decide
  exact ⟨past, s₄, hrun, hgiven, (consistent_of_run hrun hfew).1, by decide +kernel,
    by decide +kernel⟩

end TagQuery
