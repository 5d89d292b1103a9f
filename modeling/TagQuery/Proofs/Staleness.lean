import TagQuery.Proofs.CachedSearch
import TagQuery.Proofs.Stages

/-!
Runs in which changes of names are followed by invalidations. The tags of what a search gives there
are those of the store, but the ratings that it leaves out are those that were hidden from the
viewer when the object was compiled.
-/

namespace TagQuery

/-- The step is a change of names that the store has not refused. -/
def Moment.ChangesNames (m : Moment Session Event) : Prop :=
  ∃ change s, m.event = .change change ∧ change.IsOfNames ∧ change.apply m.before.store = .ok s

def Moment.IsSearch (m : Moment Session Event) : Prop :=
  ∃ viewer text outcome, m.event = .search viewer text outcome

/-- Between a change of names and a later search there is always an invalidation. -/
def InvalidatesChangedNames (steps : List (Moment Session Event)) : Prop :=
  ∀ earlier m between m' later, steps = earlier ++ m :: (between ++ m' :: later) →
    m.ChangesNames → m'.IsSearch → ∃ x ∈ between, x.event = .invalidate

theorem Store.Change.resolve_of_apply {s s' : Store} {change : Store.Change}
    (h : change.apply s = .ok s') (hchange : ¬change.IsOfNames) : s'.resolve = s.resolve := by
  cases change with
  | createTag | renameTag | addAlias => exact absurd trivial hchange
  | setPreferences | setAnonymous =>
      cases h
      rfl

variable {config : Config} {capacity : Nat} {store : Store} {w w' : Session} {event : Event}
  {past steps : List (Moment Session Event)} {viewer : Viewer} {text : String} {found : Found}

theorem Session.Step.resolve_eq (h : Session.Step w event w')
    (hnames : ¬(⟨w, event, w'⟩ : Moment Session Event).ChangesNames) :
    w'.store.resolve = w.store.resolve := by
  cases h with
  | search | invalidate | drop => rfl
  | change change =>
      show (w.store.after change).resolve = w.store.resolve
      unfold Store.after
      split
      next s' happly =>
        exact Store.Change.resolve_of_apply happly fun hof => hnames ⟨change, s', rfl, hof, happly⟩
      next => rfl

theorem resolve_eq_of_run (h : Run Session.Step w steps w')
    (hnames : ∀ m ∈ steps, ¬m.ChangesNames) : w'.store.resolve = w.store.resolve := by
  induction h with
  | nil => rfl
  | snoc _ hstep ih =>
      rw [List.forall_mem_append, List.forall_mem_singleton] at hnames
      exact (hstep.resolve_eq hnames.2).trans (ih hnames.1)

theorem CompiledSince.exists_resolve_eq {last : Moment Session Event} {stored : Stored}
    (h : Run Session.Step (.opening config capacity store) past w)
    (hsince : CompiledSince config past viewer text stored)
    (hnames : InvalidatesChangedNames (past ++ [last])) (hlast : last.IsSearch) :
    ∃ m ∈ past, m.event = .search viewer text (.ok ⟨stored, false⟩) ∧
      m.before.store.resolve = w.store.resolve ∧
      compileText m.before.store.services config viewer text = .ok stored.compiled := by
  obtain ⟨earlier, m, later, rfl, hevent, hcompiled, hlater⟩ := hsince
  obtain ⟨-, hstep, hrun⟩ := h.cut
  have hm : ¬m.ChangesNames := by
    rintro ⟨change, s, hchange, -⟩
    cases hevent.symm.trans hchange
  -- a change of names after the compilation would have been followed by an invalidation
  have hkept : ∀ x ∈ later, ¬x.ChangesNames := by
    intro x hx hchanges
    obtain ⟨before, between, rfl⟩ := List.append_of_mem hx
    obtain ⟨y, hy, hinvalidate⟩ :=
      hnames (earlier ++ m :: before) x between last [] (by simp) hchanges hlast
    exact hlater y (List.mem_append_right _ (List.mem_cons_of_mem _ hy)) hinvalidate
  refine ⟨m, by simp, hevent, ?_, hcompiled⟩
  rw [resolve_eq_of_run hrun hkept, hstep.resolve_eq hm]

/-- Where every change of names is followed by an invalidation before the next search, a search
gives what the names stand for now. What it gives is what its text compiles to on the store unless
other ratings were hidden from the viewer when it was compiled and the text leaves that to the
preferences. -/
theorem search_current_iff {config : Config} {capacity : Nat} {store : Store}
    {past : List (Moment Session Event)} {w w' : Session} {viewer : Viewer} {text : String}
    {found : Found} (h : Run Session.Step (.opening config capacity store) past w)
    (hsearch : Session.Step w (.search viewer text (.ok found)) w')
    (hnames : InvalidatesChangedNames (past ++ [⟨w, .search viewer text (.ok found), w'⟩])) :
    ∃ m ∈ past ++ [⟨w, .search viewer text (.ok found), w'⟩],
      m.event = .search viewer text (.ok ⟨found.stored, false⟩) ∧
      m.before.store.resolve = w.store.resolve ∧
      compileText m.before.store.services config viewer text = .ok found.stored.compiled ∧
      (compileText w.store.services config viewer text = .ok found.stored.compiled ↔
        found.stored.compiled.constrainsRating = true ∨
          m.before.store.visibility viewer = w.store.visibility viewer) := by
  have haccount := accounted_of_run h
  cases hsearch with
  | search hsearch =>
      cases hsearch with
      | hit hhit =>
          obtain ⟨m, hm, hevent, hresolve, hcompiled⟩ :=
            (haccount.entries viewer text _ hhit).exists_resolve_eq h hnames ⟨_, _, _, rfl⟩
          exact ⟨m, List.mem_append_left _ hm, hevent, hresolve, hcompiled,
            compileText_iff_of_resolve hresolve hcompiled⟩
      | compiled hmiss hc hcache =>
          rw [haccount.config_eq] at hc
          exact ⟨_, List.mem_append_right _ (List.mem_singleton_self _), rfl, rfl, hc,
            compileText_iff_of_resolve rfl hc⟩

/-- A visitor whose preferences change after a search finds what the old ones have left. -/
theorem exists_stale_search :
    ∃ past w stored, Run Session.Step (.opening {} 2 .empty) past w ∧
      Session.Step w (.search .anonymous "cat" (.ok ⟨stored, true⟩)) w ∧
      InvalidatesChangedNames (past ++ [⟨w, .search .anonymous "cat" (.ok ⟨stored, true⟩), w⟩]) ∧
      compileText w.store.services {} .anonymous "cat" ≠ .ok stored.compiled := by
  let w₀ := Session.opening {} 2 .empty
  let w₁ : Session := { w₀ with store := w₀.store.after (.createTag "cat") }
  let w₂ : Session := { w₁ with searcher := w₁.searcher.invalidate }
  obtain ⟨c, hc, hrating⟩ : ∃ c, compileText w₂.store.services {} .anonymous "cat" = .ok c ∧
      c.constrainsRating = false := ⟨_, by cbv, rfl⟩
  let w₃ : Session :=
    { store := w₂.store
      searcher :=
        { w₂.searcher with
          cache := w₂.searcher.cache.insert ⟨"cat", .anonymous⟩ ⟨0, c⟩
          nextNumber := 1 } }
  let w₄ : Session := { w₃ with store := w₃.store.after (.setAnonymous ⟨false, false⟩) }
  have hfirst : w₂.Step (.search .anonymous "cat" (.ok ⟨⟨0, c⟩, false⟩)) w₃ :=
    .search (.compiled rfl hc (Cache.takes_insert _ _ _))
  have hrun : Run Session.Step w₀ _ w₄ :=
    (((Run.nil.snoc (.change w₀ _)).snoc (.invalidate w₁)).snoc hfirst).snoc (.change w₃ _)
  refine ⟨_, w₄, ⟨0, c⟩, hrun, .search (.hit rfl), ?_, ?_⟩
  · intro earlier m between m' later hsteps hchanges hsearch
    simp only [List.nil_append, List.cons_append] at hsteps
    obtain _ | ⟨_, earlier⟩ := earlier
    · obtain ⟨-, hrest⟩ := List.cons.inj hsteps
      obtain _ | ⟨x, between⟩ := between
      · obtain ⟨rfl, -⟩ := List.cons.inj hrest
        obtain ⟨_, _, _, hevent⟩ := hsearch
        cases hevent
      · obtain ⟨rfl, -⟩ := List.cons.inj hrest
        exact ⟨_, List.mem_cons_self, rfl⟩
    · rw [List.cons_append] at hsteps
      obtain ⟨-, hrest⟩ := List.cons.inj hsteps
      have hm : m ∈ earlier ++ m :: (between ++ m' :: later) := by simp
      rw [← hrest] at hm
      obtain ⟨change, s, hevent, hof, -⟩ := hchanges
      simp only [List.mem_cons, List.not_mem_nil, or_false] at hm
      rcases hm with rfl | rfl | rfl | rfl <;> cases hevent
      exact False.elim hof
  · intro hcurrent
    have hsame : w₂.store.resolve = w₄.store.resolve := rfl
    rcases (compileText_iff_of_resolve hsame hc).mp hcurrent with hconstrains | hvisibility
    · cases hrating.symm.trans hconstrains
    · cases hvisibility

/-- In that run the tags stand for what they stood for, and other ratings are hidden. -/
theorem search_stale_of_changed_preferences :
    ∃ past w stored m, Run Session.Step (.opening {} 2 .empty) past w ∧
      Session.Step w (.search .anonymous "cat" (.ok ⟨stored, true⟩)) w ∧
      m ∈ past ++ [⟨w, .search .anonymous "cat" (.ok ⟨stored, true⟩), w⟩] ∧
      m.event = .search .anonymous "cat" (.ok ⟨stored, false⟩) ∧
      m.before.store.resolve = w.store.resolve ∧
      m.before.store.visibility .anonymous ≠ w.store.visibility .anonymous := by
  obtain ⟨past, w, stored, hrun, hsearch, hnames, hstale⟩ := exists_stale_search
  obtain ⟨m, hm, hevent, hresolve, -, hcurrent⟩ := search_current_iff hrun hsearch hnames
  exact ⟨past, w, stored, m, hrun, hsearch, hm, hevent, hresolve,
    fun hvisibility => hstale (hcurrent.mpr (Or.inr hvisibility))⟩

/-- It is not enough to invalidate after changes of names. -/
theorem not_forall_search_current :
    ¬∀ (config : Config) (capacity : Nat) (store : Store) (past : List (Moment Session Event))
        (w w' : Session) (viewer : Viewer) (text : String) (found : Found),
      Run Session.Step (.opening config capacity store) past w →
      Session.Step w (.search viewer text (.ok found)) w' →
      InvalidatesChangedNames (past ++ [⟨w, .search viewer text (.ok found), w'⟩]) →
      compileText w.store.services config viewer text = .ok found.stored.compiled := by
  intro hall
  obtain ⟨past, w, stored, hrun, hsearch, hnames, hstale⟩ := exists_stale_search
  exact hstale (hall {} 2 .empty past w w .anonymous "cat" ⟨stored, true⟩ hrun hsearch hnames)

end TagQuery
