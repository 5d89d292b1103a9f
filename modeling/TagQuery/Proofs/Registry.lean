import TagQuery.Proofs.StoreChanges

/-!
A store is a registry of names. Where the store keeps tags and aliases apart and looks into one map
after the other, the registry has one map from folded names to ids, each marked as that of a tag or
of an alias. Both refuse the same changes and give the same answers, after any changes whatever.
-/

namespace TagQuery

open Text

/-- Whether a name is that of a tag or of an alias. -/
inductive Standing where
  | tag
  | alias
  deriving DecidableEq

/-- All names with what they stand for, and the id that comes next. -/
structure Registry where
  names : Finmap fun _ : String => Standing × Id
  counter : Id

namespace Registry

open Store (Change)

/-- A registry without names. -/
def new : Registry :=
  ⟨∅, 0⟩

def find (r : Registry) (name : String) : Option (Standing × Id) :=
  r.names.lookup (lowercase name)

/-- The registry with a change, unless it is refused. -/
def accept? (r : Registry) : Change → Option Registry
  | .createTag name =>
    if r.find name = none then
      some ⟨r.names.insert (lowercase name) (.tag, r.counter), r.counter + 1⟩
    else none
  | .renameTag source target =>
    match r.find source with
    | some (.tag, id) =>
      if r.find target = none then
        some ⟨(r.names.erase (lowercase source)).insert (lowercase target) (.tag, id), r.counter⟩
      else none
    | _ => none
  | .addAlias name target =>
    match r.find target with
    | some (_, id) =>
      if r.find name = none then
        some ⟨r.names.insert (lowercase name) (.alias, id), r.counter⟩
      else none
    | none => none
  | .setPreferences _ _ | .setAnonymous _ => some r

/-- The registry after a change, which a refusal leaves as it was. -/
def after (r : Registry) (change : Change) : Registry :=
  (r.accept? change).getD r

variable {r r' : Registry}

theorem accept?_createTag_eq_some_iff {name : String} :
    r.accept? (.createTag name) = some r' ↔ r.find name = none ∧
      r' = ⟨r.names.insert (lowercase name) (.tag, r.counter), r.counter + 1⟩ := by
  by_cases hfree : r.find name = none
  · simp [accept?, hfree, eq_comm]
  · simp [accept?, hfree]

theorem accept?_renameTag_eq_some_iff {source target : String} :
    r.accept? (.renameTag source target) = some r' ↔ r.find target = none ∧
      ∃ id, r.find source = some (.tag, id) ∧
        r' =
          ⟨(r.names.erase (lowercase source)).insert (lowercase target) (.tag, id), r.counter⟩ := by
  by_cases hfree : r.find target = none
  · rcases hfind : r.find source with _ | ⟨_ | _, id⟩ <;> simp [accept?, hfind, hfree, eq_comm]
  · rcases hfind : r.find source with _ | ⟨_ | _, id⟩ <;> simp [accept?, hfind, hfree]

theorem accept?_addAlias_eq_some_iff {name target : String} :
    r.accept? (.addAlias name target) = some r' ↔ r.find name = none ∧
      ∃ standing id, r.find target = some (standing, id) ∧
        r' = ⟨r.names.insert (lowercase name) (.alias, id), r.counter⟩ := by
  by_cases hfree : r.find name = none
  · rcases hfind : r.find target with _ | ⟨standing, id⟩ <;> simp [accept?, hfind, hfree, eq_comm]
  · rcases hfind : r.find target with _ | ⟨standing, id⟩ <;> simp [accept?, hfind, hfree]

theorem lookup_insert_eq_ite (names : Finmap fun _ : String => Standing × Id) (name other : String)
    (entry : Standing × Id) :
    (names.insert name entry).lookup other =
      if other = name then some entry else names.lookup other := by
  by_cases h : other = name
  · rw [if_pos h, h, Finmap.lookup_insert]
  · rw [if_neg h, Finmap.lookup_insert_of_ne _ h]

theorem lookup_erase_eq_ite (names : Finmap fun _ : String => Standing × Id) (name other : String) :
    (names.erase name).lookup other = if other = name then none else names.lookup other := by
  by_cases h : other = name
  · rw [if_pos h, h, Finmap.lookup_erase]
  · rw [if_neg h, Finmap.lookup_erase_ne h]

end Registry

namespace Store

variable {s s' : Store} {r r' : Registry} {change : Change} {name : String} {id : Id}

/-- What a folded name stands for, be it a tag or an alias. -/
def standing? (s : Store) (name : String) : Option (Standing × Id) :=
  ((s.tags.get? name).map (Standing.tag, ·)).or ((s.aliases.get? name).map (Standing.alias, ·))

theorem standing?_eq_none_iff : s.standing? name = none ↔ s.IsFree name := by
  simp [standing?, IsFree]

theorem standing?_eq_tag_iff : s.standing? name = some (.tag, id) ↔ s.tags.get? name = some id := by
  unfold standing?
  cases s.tags.get? name with
  | none => simp
  | some id' => simp

theorem resolve_eq_standing? (s : Store) (name : String) :
    s.resolve name = (s.standing? (lowercase name)).map Prod.snd := by
  unfold resolve standing?
  dsimp only
  cases s.tags.get? (lowercase name) with
  | none => simp
  | some id => simp

/-- A store with the registry that has its names and its counter. -/
structure MatchedBy (s : Store) (r : Registry) : Prop where
  names : ∀ name, r.names.lookup name = s.standing? name
  counter : r.counter = s.nextId
  apart : s.NamesApart

theorem matchedBy_new : Store.empty.MatchedBy .new :=
  ⟨fun _ => Finmap.lookup_empty _, rfl, namesApart_empty⟩

theorem MatchedBy.find_eq (h : s.MatchedBy r) (name : String) :
    r.find name = s.standing? (lowercase name) :=
  h.names (lowercase name)

theorem MatchedBy.find_eq_none_iff (h : s.MatchedBy r) :
    r.find name = none ↔ s.IsFree (lowercase name) := by
  rw [h.find_eq, standing?_eq_none_iff]

theorem MatchedBy.find_eq_tag_iff (h : s.MatchedBy r) :
    r.find name = some (.tag, id) ↔ s.tags.get? (lowercase name) = some id := by
  rw [h.find_eq, standing?_eq_tag_iff]

theorem MatchedBy.resolve_eq (h : s.MatchedBy r) (name : String) :
    s.resolve name = (r.find name).map Prod.snd := by
  rw [resolve_eq_standing?, h.find_eq]

/-- What the store accepts the registry accepts, and they match afterwards. -/
theorem MatchedBy.of_accepts (h : s.MatchedBy r) (haccepts : s.Accepts change s') :
    ∃ r', r.accept? change = some r' ∧ s'.MatchedBy r' := by
  have hapart := h.apart.of_accepts haccepts
  cases haccepts with
  | @createTag name hfree =>
      have hnone := h.find_eq_none_iff.mpr hfree
      refine ⟨_, Registry.accept?_createTag_eq_some_iff.mpr ⟨hnone, rfl⟩, fun other => ?_, ?_,
        hapart⟩
      · rw [Registry.lookup_insert_eq_ite, h.names, h.counter]
        unfold standing?
        rw [SortedMap.get?_insert]
        split_ifs <;> rfl
      · exact congrArg (· + 1) h.counter
  | @renameTag source target id hfree htag =>
      have hnone := h.find_eq_none_iff.mpr hfree
      have hfind := h.find_eq_tag_iff.mpr htag
      refine ⟨_, Registry.accept?_renameTag_eq_some_iff.mpr ⟨hnone, id, hfind, rfl⟩,
        fun other => ?_, h.counter, hapart⟩
      rw [Registry.lookup_insert_eq_ite, Registry.lookup_erase_eq_ite, h.names]
      unfold standing?
      rw [SortedMap.get?_insert, SortedMap.get?_erase]
      split_ifs with hnew hold
      · rfl
      · have halias : s.aliases.get? other = none :=
          (h.apart other).resolve_left (by simp [hold, htag])
        simp [halias]
      · rfl
  | @addAlias name target id hfree htarget =>
      obtain ⟨⟨standing, id'⟩, hfind, rfl⟩ :=
        Option.map_eq_some_iff.mp ((h.resolve_eq target).symm.trans htarget)
      have hnone := h.find_eq_none_iff.mpr hfree
      refine ⟨_, Registry.accept?_addAlias_eq_some_iff.mpr ⟨hnone, standing, id', hfind, rfl⟩,
        fun other => ?_, h.counter, hapart⟩
      rw [Registry.lookup_insert_eq_ite, h.names]
      unfold standing?
      rw [SortedMap.get?_insert]
      split_ifs with hnew
      · simp [hnew, hfree.1]
      · rfl
  | setPreferences => exact ⟨r, rfl, h.names, h.counter, hapart⟩
  | setAnonymous => exact ⟨r, rfl, h.names, h.counter, hapart⟩

/-- What the registry accepts the store accepts. -/
theorem MatchedBy.exists_accepts (h : s.MatchedBy r) (hr : r.accept? change = some r') :
    ∃ s', s.Accepts change s' := by
  cases change with
  | createTag name =>
      obtain ⟨hfind, -⟩ := Registry.accept?_createTag_eq_some_iff.mp hr
      exact ⟨_, .createTag (h.find_eq_none_iff.mp hfind)⟩
  | renameTag source target =>
      obtain ⟨hfind, id, htag, -⟩ := Registry.accept?_renameTag_eq_some_iff.mp hr
      exact ⟨_, .renameTag (h.find_eq_none_iff.mp hfind) (h.find_eq_tag_iff.mp htag)⟩
  | addAlias name target =>
      obtain ⟨hfind, standing, id, htarget, -⟩ := Registry.accept?_addAlias_eq_some_iff.mp hr
      have hresolve : s.resolve target = some id := by
        rw [h.resolve_eq, htarget]
        rfl
      exact ⟨_, .addAlias (h.find_eq_none_iff.mp hfind) hresolve⟩
  | setPreferences user visibility => exact ⟨_, .setPreferences user visibility⟩
  | setAnonymous visibility => exact ⟨_, .setAnonymous visibility⟩

theorem MatchedBy.refused_iff (h : s.MatchedBy r) :
    (∃ e, change.apply s = .error e) ↔ r.accept? change = none := by
  constructor
  · rintro ⟨e, he⟩
    by_contra hsome
    obtain ⟨r', hr⟩ := Option.ne_none_iff_exists'.mp hsome
    obtain ⟨s', haccepts⟩ := h.exists_accepts hr
    cases he.symm.trans (apply_eq_ok_iff.mpr haccepts)
  · intro hnone
    cases happly : change.apply s with
    | error e => exact ⟨e, rfl⟩
    | ok s' =>
        obtain ⟨r', hr, -⟩ := h.of_accepts (apply_eq_ok_iff.mp happly)
        cases hnone.symm.trans hr

theorem MatchedBy.after (h : s.MatchedBy r) (change : Change) :
    (s.after change).MatchedBy (r.after change) := by
  rcases s.after_cases change with ⟨hrefused, hsame⟩ | haccepts
  · rw [hsame, Registry.after, h.refused_iff.mp hrefused]
    exact h
  · obtain ⟨r', hr, hmatched⟩ := h.of_accepts haccepts
    rw [Registry.after, hr]
    exact hmatched

theorem matchedBy_foldl (changes : List Change) :
    (changes.foldl after .empty).MatchedBy (changes.foldl Registry.after .new) := by
  induction changes using List.reverseRecOn with
  | nil => exact matchedBy_new
  | append_singleton changes change ih =>
      rw [List.foldl_append, List.foldl_append]
      exact ih.after change

namespace Change

/-- The visibility that a change sets for a user. -/
def preferencesOf? (user : Id) : Change → Option Visibility
  | .setPreferences user' visibility => if user' = user then some visibility else none
  | _ => none

/-- The visibility that a change sets for visitors. -/
def anonymous? : Change → Option Visibility
  | .setAnonymous visibility => some visibility
  | _ => none

end Change

/-- The last visibility that was set for visitors, who see the least before. -/
def lastAnonymous (changes : List Change) : Visibility :=
  (changes.filterMap Change.anonymous?).getLast?.getD .hideAll

/-- The last visibility that was set for a viewer. -/
def lastVisibility (changes : List Change) : Viewer → Visibility
  | .anonymous => lastAnonymous changes
  | .user id => (changes.filterMap (Change.preferencesOf? id)).getLast?.getD (lastAnonymous changes)

theorem after_of_isOfNames (s : Store) (change : Change) (h : change.IsOfNames) :
    (s.after change).preferences = s.preferences ∧ (s.after change).anonymous = s.anonymous := by
  refine after_of_forall_accepts
    (fun t => t.preferences = s.preferences ∧ t.anonymous = s.anonymous) ⟨rfl, rfl⟩ ?_
  intro s' haccepts
  cases haccepts with
  | createTag | renameTag | addAlias => exact ⟨rfl, rfl⟩
  | setPreferences | setAnonymous => exact h.elim

theorem preferences_after (s : Store) (change : Change) (user : Id) :
    (s.after change).preferences.get? user =
      (change.preferencesOf? user).or (s.preferences.get? user) := by
  cases change with
  | createTag | renameTag | addAlias =>
      exact congrArg (SortedMap.get? · user) (s.after_of_isOfNames _ (by trivial)).1
  | setPreferences user' visibility =>
      show (s.preferences.insert user' visibility).get? user = _
      rw [SortedMap.get?_insert, Change.preferencesOf?]
      by_cases heq : user' = user
      · rw [if_pos heq, if_pos heq.symm, Option.some_or]
      · rw [if_neg heq, if_neg (Ne.symm heq), Option.none_or]
  | setAnonymous => rfl

theorem anonymous_after (s : Store) (change : Change) :
    (s.after change).anonymous = change.anonymous?.getD s.anonymous := by
  cases change with
  | createTag | renameTag | addAlias => exact (s.after_of_isOfNames _ (by trivial)).2
  | setPreferences | setAnonymous => rfl

theorem getLast?_filterMap_snoc {α β : Type} (f : α → Option β) (l : List α) (a : α) :
    ((l ++ [a]).filterMap f).getLast? = (f a).or (l.filterMap f).getLast? := by
  rw [List.filterMap_append, List.getLast?_append]
  cases h : f a <;> simp [h]

theorem preferences_foldl (changes : List Change) (user : Id) :
    (changes.foldl after .empty).preferences.get? user =
      (changes.filterMap (Change.preferencesOf? user)).getLast? := by
  induction changes using List.reverseRecOn with
  | nil => rfl
  | append_singleton changes change ih =>
      rw [List.foldl_append, getLast?_filterMap_snoc, ← ih]
      exact preferences_after _ change user

theorem anonymous_foldl (changes : List Change) :
    (changes.foldl after .empty).anonymous = lastAnonymous changes := by
  induction changes using List.reverseRecOn with
  | nil => rfl
  | append_singleton changes change ih =>
      rw [List.foldl_append, lastAnonymous, getLast?_filterMap_snoc]
      refine (anonymous_after _ change).trans ?_
      rw [ih, lastAnonymous]
      cases change.anonymous? <;> rfl

theorem visibility_foldl (changes : List Change) (viewer : Viewer) :
    (changes.foldl after .empty).visibility viewer = lastVisibility changes viewer := by
  cases viewer with
  | anonymous => exact anonymous_foldl changes
  | user id =>
      show Option.getD _ _ = Option.getD _ _
      rw [preferences_foldl, anonymous_foldl]

/-! ### What later changes leave alone -/

/-- The names that a change is about. -/
def Change.arguments : Change → List String
  | .createTag name => [name]
  | .renameTag source target | .addAlias source target => [source, target]
  | .setPreferences _ _ | .setAnonymous _ => []

/-- A change leaves alone what other names stand for. -/
theorem resolve_after_of_forall_ne (s : Store) {change : Change}
    (h : ∀ argument ∈ change.arguments, lowercase name ≠ lowercase argument) :
    (s.after change).resolve name = s.resolve name := by
  refine after_of_forall_accepts (fun t => t.resolve name = s.resolve name) rfl ?_
  intro s' haccepts
  cases haccepts with
  | createTag =>
      have hne := h _ (List.mem_singleton_self _)
      simp [resolve, SortedMap.get?_insert, hne]
  | renameTag =>
      have hsource := h _ List.mem_cons_self
      have htarget := h _ (List.mem_cons_of_mem _ List.mem_cons_self)
      simp [resolve, SortedMap.get?_insert, SortedMap.get?_erase, hsource, htarget]
  | addAlias =>
      have hne := h _ List.mem_cons_self
      simp [resolve, SortedMap.get?_insert, hne]
  | setPreferences => rfl
  | setAnonymous => rfl

/-- An alias stays what it is. -/
theorem aliases_after (s : Store) (change : Change) (h : s.aliases.get? name = some id) :
    (s.after change).aliases.get? name = some id := by
  refine after_of_forall_accepts (fun t => t.aliases.get? name = some id) h ?_
  intro s' haccepts
  cases haccepts with
  | addAlias hfree htarget =>
      have hne := SortedMap.ne_of_get?_eq_none h hfree.2
      simpa [SortedMap.get?_insert, hne] using h
  | createTag | renameTag | setPreferences | setAnonymous => exact h

theorem resolve_foldl_of_alias (later : List Change) (hapart : s.NamesApart)
    (h : s.aliases.get? (lowercase name) = some id) :
    (later.foldl after s).resolve name = some id := by
  induction later generalizing s with
  | nil =>
      have htag : s.tags.get? (lowercase name) = none := (hapart _).resolve_right (by simp [h])
      simp [resolve, htag, h]
  | cons change later ih => exact ih (hapart.after change) (aliases_after s change h)

end Store

/-- After any changes a store is one map of names. It resolves names, refuses changes and gives ids
to tags as the registry does that has had the same changes, and a viewer sees what was set last. A
refusal leaves the store as it is, an alias stays with the id that its target had when it was made,
and no change bears on a name that it does not mention. -/
theorem store_follows_registry (changes : List Store.Change) :
    let s := changes.foldl Store.after .empty
    let r := changes.foldl Registry.after .new
    (∀ name, s.resolve name = (r.find name).map Prod.snd) ∧
    (∀ viewer, s.visibility viewer = Store.lastVisibility changes viewer) ∧
    (∀ change, (∃ e, change.apply s = .error e) ↔ r.accept? change = none) ∧
    (∀ name id s', s.createTag name = .ok (id, s') → id = r.counter) ∧
    (∀ change e, change.apply s = .error e → s.after change = s) ∧
    (∀ name target s', s.addAlias name target = .ok s' → ∃ id, s.resolve target = some id ∧
      ∀ later : List Store.Change, (later.foldl Store.after s').resolve name = some id) ∧
    ∀ change name, (∀ argument ∈ change.arguments, lowercase name ≠ lowercase argument) →
      (s.after change).resolve name = s.resolve name := by
  intro s r
  have hmatched : s.MatchedBy r := Store.matchedBy_foldl changes
  refine ⟨hmatched.resolve_eq, Store.visibility_foldl changes, fun _ => hmatched.refused_iff, ?_,
    fun _ _ => Store.after_of_apply_error, ?_, fun _ _ => Store.resolve_after_of_forall_ne s⟩
  · intro name id s' hcreate
    obtain ⟨-, hid, -⟩ := Store.createTag_eq_ok_iff.mp hcreate
    exact hid.trans hmatched.counter.symm
  · intro name target s' halias
    obtain ⟨hfree, id, htarget, rfl⟩ := Store.addAlias_eq_ok_iff.mp halias
    have hapart := hmatched.apart.of_accepts (.addAlias hfree htarget)
    exact ⟨id, htarget, fun later =>
      Store.resolve_foldl_of_alias later hapart (by simp [SortedMap.get?_insert])⟩

/-- An alias of an alias stays with its id while the tag takes another name and the old one is given
to another tag. -/
theorem store_follows_registry_of_renamed_target :
    let s := [Store.Change.createTag "Cat", .addAlias "kitty" "CAT"].foldl Store.after .empty
    ∃ s', s.addAlias "neko" "KITTY" = .ok s' ∧
      let s'' := [Store.Change.renameTag "cat" "felis", .createTag "cat"].foldl Store.after s'
      s''.resolve "neko" = some 0 ∧ s''.resolve "cat" = some 1 := by
  intro s
  have htarget : s.resolve "KITTY" = some 0 := by decide +kernel
  obtain ⟨s', hs'⟩ : ∃ s', s.addAlias "neko" "KITTY" = .ok s' :=
    ⟨_, Store.addAlias_eq_ok_iff.mpr ⟨by constructor <;> decide +kernel, 0, htarget, rfl⟩⟩
  obtain ⟨-, -, -, -, -, halias, -⟩ :=
    store_follows_registry [.createTag "Cat", .addAlias "kitty" "CAT"]
  obtain ⟨id, hid, hlater⟩ := halias "neko" "KITTY" s' hs'
  cases htarget.symm.trans hid
  refine ⟨s', hs', hlater _, ?_⟩
  obtain ⟨-, _, hid', rfl⟩ := Store.addAlias_eq_ok_iff.mp hs'
  cases htarget.symm.trans hid'
  decide +kernel

end TagQuery
