import TagQuery.Proofs.Interleaving

/-!
What an invalidation achieves among searches that run at once. Every search has an account of what
it has looked up, and each entry of the cache is one that a search has put there since the
invalidation, though it may have looked up the tags before.
-/

namespace TagQuery.Traffic

section

variable (config : Config) (steps : List (Moment Traffic Action)) (i : Nat) (viewer : Viewer)
  (text : String)

/-- The search has looked up the tags, and this is its draft. -/
def DraftedBy (d : Draft) : Prop :=
  ∃ m ∈ steps, m.event = .lookUpTags i ∧
    ∃ q, Query.parse text = .ok q ∧ q.lookUpTags m.before.services.resolve config = .ok d

/-- This is what the search has compiled from what it has looked up. -/
def CompiledBy (c : Compiled) : Prop :=
  ∃ d, DraftedBy config steps i text d ∧
    ((d.constrainsRating = true ∧ d.finish config none = c) ∨
      (d.constrainsRating = false ∧ ∃ m ∈ steps, m.event = .lookUpPreferences i ∧
        d.lookUpPreferences (m.before.services.visibility viewer) config = .ok c))

/-- The search can have come to the phase through these steps. -/
inductive Explained : Phase → Prop where
  | resolving {q : Query} (hparse : Query.parse text = .ok q)
      (hnone : ∀ m ∈ steps, ¬m.event.LooksUp i) : Explained (.resolving q)
  | consulting {d : Draft} (h : DraftedBy config steps i text d)
      (hrating : d.constrainsRating = false) : Explained (.consulting d)
  | keeping {c : Compiled} (h : CompiledBy config steps i viewer text c) : Explained (.keeping c)
  | kept {stored : Stored} (h : CompiledBy config steps i viewer text stored.compiled) :
      Explained (.done (.ok ⟨stored, false⟩))
  | found {stored : Stored} : Explained (.done (.ok ⟨stored, true⟩))
  | failed {e : SearchError} : Explained (.done (.error e))

end

section

variable {config : Config} {capacity : Nat} {services : Services}
  {steps later : List (Moment Traffic Action)} {m : Moment Traffic Action} {t t' : Traffic}
  {a : Action} {i n : Nat} {viewer : Viewer} {text : String} {stored : Stored} {phase : Phase}

theorem DraftedBy.snoc {d : Draft} (h : DraftedBy config steps i text d) :
    DraftedBy config (steps ++ [m]) i text d := by
  obtain ⟨x, hx, hd⟩ := h
  exact ⟨x, List.mem_append_left _ hx, hd⟩

theorem CompiledBy.snoc {c : Compiled} (h : CompiledBy config steps i viewer text c) :
    CompiledBy config (steps ++ [m]) i viewer text c := by
  obtain ⟨d, hd, hc⟩ := h
  refine ⟨d, hd.snoc, hc.imp_right ?_⟩
  rintro ⟨hrating, x, hx, hc⟩
  exact ⟨hrating, x, List.mem_append_left _ hx, hc⟩

theorem Explained.snoc (h : Explained config steps i viewer text phase)
    (hm : ¬m.event.LooksUp i) : Explained config (steps ++ [m]) i viewer text phase := by
  cases h with
  | resolving hparse hnone =>
      refine .resolving hparse ?_
      rw [List.forall_mem_append, List.forall_mem_singleton]
      exact ⟨hnone, hm⟩
  | consulting hd hrating => exact .consulting hd.snoc hrating
  | keeping hc => exact .keeping hc.snoc
  | kept hc => exact .kept hc.snoc
  | found => exact .found
  | failed => exact .failed

theorem explained_ofDraft {q : Query} (hparse : Query.parse text = .ok q) (hm : m ∈ steps)
    (hevent : m.event = .lookUpTags i) : Explained config steps i viewer text
      (.ofDraft config (q.lookUpTags m.before.services.resolve config)) := by
  unfold Phase.ofDraft
  cases hd : q.lookUpTags m.before.services.resolve config with
  | error e => exact .failed
  | ok d =>
      have hdrafted : DraftedBy config steps i text d := ⟨m, hm, hevent, q, hparse, hd⟩
      dsimp only
      split
      next hrating => exact .keeping ⟨d, hdrafted, Or.inl ⟨hrating, rfl⟩⟩
      next hrating => exact .consulting hdrafted (Bool.eq_false_iff.mpr hrating)

theorem explained_ofOutcome {d : Draft} (hd : DraftedBy config steps i text d)
    (hrating : d.constrainsRating = false) (hm : m ∈ steps)
    (hevent : m.event = .lookUpPreferences i) : Explained config steps i viewer text (.ofOutcome
      ((d.lookUpPreferences (m.before.services.visibility viewer) config).mapError .compile)) := by
  cases hc : d.lookUpPreferences (m.before.services.visibility viewer) config with
  | error e => exact .failed
  | ok c => exact .keeping ⟨d, hd, Or.inr ⟨hrating, m, hm, hevent, hc⟩⟩

/-- What holds of all searches at any moment of a run. -/
structure Traced (config : Config) (steps : List (Moment Traffic Action)) (t : Traffic) :
    Prop where
  config_eq : t.searcher.config = config
  explained : ∀ i f, t.flights[i]? = some f → Explained config steps i f.viewer f.text f.phase
  begun : ∀ m ∈ steps, ∀ i, m.event.LooksUp i → i < t.flights.length
  numbers : ∀ (i : Nat) viewer text stored,
    t.flights[i]? = some ⟨viewer, text, .done (.ok ⟨stored, false⟩)⟩ →
      stored.number < t.searcher.nextNumber
  unique : ∀ (i j : Nat) viewer text stored,
    t.flights[i]? = some ⟨viewer, text, .done (.ok ⟨stored, false⟩)⟩ →
      t.flights[j]? = some ⟨viewer, text, .done (.ok ⟨stored, false⟩)⟩ → i = j

theorem traced_opening : Traced config [] (opening config capacity services) where
  config_eq := rfl
  explained _ _ hf := nomatch hf
  begun _ hm := absurd hm List.not_mem_nil
  numbers _ _ _ _ hf := nomatch hf
  unique _ _ _ _ _ hf := nomatch hf

namespace Traced

theorem explained_snoc (h : Traced config steps t) (hstep : Step t a t') {f : Flight}
    (hf : t'.flights[i]? = some f) :
    Explained config (steps ++ [⟨t, a, t'⟩]) i f.viewer f.text f.phase := by
  have hlast : (⟨t, a, t'⟩ : Moment Traffic Action) ∈ steps ++ [⟨t, a, t'⟩] := by simp
  cases hstep.came hf with
  | stayed hf ha => exact (h.explained i f hf).snoc ha
  | begun hi =>
      rcases t.searcher.begin_cases _ _ with ⟨_, -, hbegin⟩ | ⟨_, hbegin⟩ | ⟨q, hparse, hbegin⟩
      · rw [hbegin]
        exact .found
      · rw [hbegin]
        exact .failed
      · rw [hbegin]
        have hnone : ∀ m ∈ steps, ¬m.event.LooksUp i :=
          fun m hm hlook => absurd hi (Nat.ne_of_lt (h.begun m hm i hlook))
        exact (Explained.resolving hparse hnone).snoc id
  | drafted hold =>
      cases h.explained i _ hold with
      | resolving hparse hnone =>
          rw [h.config_eq]
          exact explained_ofDraft (m := ⟨t, .lookUpTags i, t'⟩) hparse hlast rfl
  | compiled hold =>
      cases h.explained i _ hold with
      | consulting hd hrating =>
          rw [h.config_eq]
          exact explained_ofOutcome (m := ⟨t, .lookUpPreferences i, t'⟩) hd.snoc hrating hlast rfl
  | kept hold =>
      cases h.explained i _ hold with
      | keeping hc => exact .kept hc.snoc

theorem snoc (h : Traced config steps t) (hstep : Step t a t') :
    Traced config (steps ++ [⟨t, a, t'⟩]) t' where
  config_eq := hstep.config_eq.trans h.config_eq
  explained i f hf := h.explained_snoc hstep hf
  begun m hm i hlook := by
    rcases List.mem_append.mp hm with hm | hm
    · exact Nat.lt_of_lt_of_le (h.begun m hm i hlook) hstep.length_le
    · cases List.mem_singleton.mp hm
      exact Nat.lt_of_lt_of_le (hstep.lt_length hlook) hstep.length_le
  numbers i viewer text stored hf := by
    rcases hstep.kept_cases hf with hf | ⟨rfl, hnew⟩
    · exact Nat.lt_of_lt_of_le (h.numbers i viewer text stored hf) hstep.nextNumber_le
    · rw [hnew, hstep.nextNumber_keep]
      exact Nat.lt_succ_self _
  unique i j viewer text stored hi hj := by
    have hnumber {i : Nat}
        (hf : t.flights[i]? = some ⟨viewer, text, .done (.ok ⟨stored, false⟩)⟩) :
        stored.number ≠ t.searcher.nextNumber :=
      Nat.ne_of_lt (h.numbers i viewer text stored hf)
    rcases hstep.kept_cases hi with hi | ⟨rfl, hnew⟩
    · rcases hstep.kept_cases hj with hj | ⟨rfl, hnew⟩
      · exact h.unique i j viewer text stored hi hj
      · exact absurd hnew (hnumber hi)
    · rcases hstep.kept_cases hj with hj | ⟨hkeep, -⟩
      · exact absurd hnew (hnumber hj)
      · cases hkeep
        rfl

end Traced

theorem traced_of_run (h : Run Step (opening config capacity services) steps t) :
    Traced config steps t := by
  induction h with
  | nil => exact traced_opening
  | snoc _ hstep ih => exact ih.snoc hstep

theorem Traced.compiledBy (h : Traced config steps t)
    (hf : t.flights[i]? = some ⟨viewer, text, .done (.ok ⟨stored, false⟩)⟩) :
    CompiledBy config steps i viewer text stored.compiled := by
  cases h.explained i _ hf with
  | kept hc => exact hc

/-- A search that is not done has looked something up exactly if it is on its way to the cache. -/
theorem Traced.exists_looksUp_iff (h : Traced config steps t)
    (hdone : ∀ viewer text outcome, t.flights[i]? ≠ some ⟨viewer, text, .done outcome⟩) :
    (∃ m ∈ steps, m.event.LooksUp i) ↔ ∃ f, t.flights[i]? = some f ∧ f.phase.InTransit := by
  constructor
  · rintro ⟨m, hm, hlook⟩
    obtain ⟨⟨viewer, text, phase⟩, hf⟩ : ∃ f, t.flights[i]? = some f :=
      ⟨_, List.getElem?_eq_getElem (h.begun m hm i hlook)⟩
    refine ⟨_, hf, ?_⟩
    cases h.explained i _ hf with
    | resolving hparse hnone => exact absurd hlook (hnone m hm)
    | consulting => trivial
    | keeping => trivial
    | kept | found | failed => exact absurd hf (hdone _ _ _)
  · rintro ⟨⟨viewer, text, phase⟩, hf, htransit⟩
    cases h.explained i _ hf with
    | consulting hd =>
        obtain ⟨m, hm, hevent, -⟩ := hd
        exact ⟨m, hm, hevent ▸ rfl⟩
    | keeping hc =>
        obtain ⟨d, ⟨m, hm, hevent, -⟩, -⟩ := hc
        exact ⟨m, hm, hevent ▸ rfl⟩
    | resolving | kept | found | failed => exact False.elim htransit

/-! ### What is in the cache since an invalidation -/

/-- A search has made the object, and has put it into the cache in one of the steps. -/
def KeptIn (steps : List (Moment Traffic Action)) (t : Traffic) (viewer : Viewer) (text : String)
    (stored : Stored) : Prop :=
  ∃ i : Nat, t.flights[i]? = some ⟨viewer, text, .done (.ok ⟨stored, false⟩)⟩ ∧
    ∃ m ∈ steps, m.event = .keep i

theorem KeptIn.snoc (h : KeptIn steps t viewer text stored) (hstep : Step t a t') :
    KeptIn (steps ++ [⟨t, a, t'⟩]) t' viewer text stored := by
  obtain ⟨i, hf, m, hm, hevent⟩ := h
  exact ⟨i, hstep.getElem?_of_done hf, m, List.mem_append_left _ hm, hevent⟩

/-- What holds after steps from an empty cache, at whose beginning some searches had begun. -/
structure Renewed (begun : Nat) (steps : List (Moment Traffic Action)) (t : Traffic) : Prop where
  entries : ∀ viewer text stored, t.searcher.cache.get? ⟨text, viewer⟩ = some stored →
    KeptIn steps t viewer text stored
  results : ∀ j, begun ≤ j → ∀ viewer text found,
    t.flights[j]? = some ⟨viewer, text, .done (.ok found)⟩ →
      KeptIn steps t viewer text found.stored

theorem Renewed.results_snoc (h : Renewed n steps t) (hstep : Step t a t') {j : Nat} (hj : n ≤ j)
    {found : Found} (hf : t'.flights[j]? = some ⟨viewer, text, .done (.ok found)⟩) :
    KeptIn (steps ++ [⟨t, a, t'⟩]) t' viewer text found.stored := by
  generalize hg : (⟨viewer, text, .done (.ok found)⟩ : Flight) = g at hf
  cases hstep.came hf with
  | stayed hold =>
      rw [← hg] at hold
      exact (h.results j hj _ _ _ hold).snoc hstep
  | begun =>
      rcases t.searcher.begin_cases _ _ with ⟨_, hhit, hbegin⟩ | ⟨_, hbegin⟩ | ⟨_, -, hbegin⟩ <;>
        cases hg.trans hbegin
      exact (h.entries _ _ _ hhit).snoc hstep
  | drafted => exact absurd (congrArg Flight.phase hg).symm Phase.ofDraft_ne_ok
  | compiled => exact absurd (congrArg Flight.phase hg).symm Phase.ofOutcome_ne_ok
  | kept =>
      cases hg
      exact ⟨j, hf, _, List.mem_append_right _ (List.mem_singleton_self _), rfl⟩

theorem Renewed.snoc (h : Renewed n steps t) (hstep : Step t a t') :
    Renewed n (steps ++ [⟨t, a, t'⟩]) t' where
  entries viewer text stored hentry := by
    rcases hstep.entry_cases hentry with hold | ⟨i, rfl, hf⟩
    · exact (h.entries _ _ _ hold).snoc hstep
    · exact ⟨i, hf, _, List.mem_append_right _ (List.mem_singleton_self _), rfl⟩
  results j hj viewer text found hf := h.results_snoc hstep hj hf

theorem renewed_invalidate (t : Traffic) :
    Renewed t.flights.length [] { t with searcher := t.searcher.invalidate } where
  entries _ _ _ hentry := nomatch (Cache.get?_clear _ _).symm.trans hentry
  results _ hj _ _ _ hf := absurd (List.getElem?_eq_some_iff.mp hf).1 (Nat.not_lt_of_le hj)

theorem renewed_of_run (h : Run Step { t with searcher := t.searcher.invalidate } steps t') :
    Renewed t.flights.length steps t' := by
  induction h with
  | nil => exact renewed_invalidate t
  | snoc _ hstep ih => exact ih.snoc hstep

end

/-- What a search gives that has begun after an invalidation has been put into the cache after it.
Some of what it was compiled from has been looked up before the invalidation exactly if the search
that has compiled it was then between its first lookup and the cache. -/
theorem lookedUp_before_invalidate_iff {config : Config} {capacity : Nat} {services : Services}
    {past later : List (Moment Traffic Action)} {m : Moment Traffic Action} {t : Traffic} {j : Nat}
    {viewer : Viewer} {text : String} {found : Found}
    (h : Run Step (opening config capacity services) (past ++ m :: later) t)
    (hinvalidate : m.event = .invalidate) (hj : m.before.flights.length ≤ j)
    (hfound : t.flights[j]? = some ⟨viewer, text, .done (.ok found)⟩) :
    ∃ i : Nat, t.flights[i]? = some ⟨viewer, text, .done (.ok ⟨found.stored, false⟩)⟩ ∧
      (∀ i' : Nat, t.flights[i']? = some ⟨viewer, text, .done (.ok ⟨found.stored, false⟩)⟩ →
        i' = i) ∧
      CompiledBy config (past ++ m :: later) i viewer text found.stored.compiled ∧
      (∃ x ∈ later, x.event = .keep i) ∧
      ((∃ x ∈ past, x.event.LooksUp i) ↔
        ∃ f, m.before.flights[i]? = some f ∧ f.phase.InTransit) := by
  obtain ⟨before, event, after⟩ := m
  cases hinvalidate
  obtain ⟨hpast, hstep, hlater⟩ := h.cut
  dsimp only at hpast hstep hlater hj
  cases hstep
  have hnow := traced_of_run h
  obtain ⟨i, hkept, x, hx, hkeep⟩ := (renewed_of_run hlater).results j hj _ _ _ hfound
  refine ⟨i, hkept, fun i' hi' => hnow.unique i' i _ _ _ hi' hkept, hnow.compiledBy hkept,
    ⟨x, hx, hkeep⟩, ?_⟩
  refine (traced_of_run hpast).exists_looksUp_iff fun _ _ _ hdone => ?_
  exact event_ne_keep_of_done hlater hdone x hx hkeep

/-- A tag is made and the cache is emptied while a search for the tag is on its way to the cache,
and the next search finds what that one has put there. -/
theorem exists_late_keep :
    ∃ past m later t stored, Run Step (opening {} 2 Store.empty.services) (past ++ m :: later) t ∧
      m.event = .invalidate ∧ m.before.flights.length = 1 ∧
      t.flights[0]? = some ⟨.anonymous, "cat", .done (.ok ⟨stored, false⟩)⟩ ∧
      t.flights[1]? = some ⟨.anonymous, "cat", .done (.ok ⟨stored, true⟩)⟩ ∧
      ∃ x ∈ past, x.event.LooksUp 0 := by
  let early := Store.empty.services
  let late := (Store.empty.after (.createTag "cat")).services
  obtain ⟨q, d, c, hq, hd, hrating, hc⟩ : ∃ q d c, Query.parse "cat" = .ok q ∧
      q.lookUpTags early.resolve {} = .ok d ∧ d.constrainsRating = false ∧
      d.lookUpPreferences (late.visibility .anonymous) {} = .ok c :=
    ⟨_, _, _, by cbv, by cbv, rfl, by cbv⟩
  let s₀ : Searcher := { config := {}, cache := .empty 2 }
  let s₁ : Searcher :=
    { s₀.invalidate with
      cache := s₀.invalidate.cache.insert ⟨"cat", .anonymous⟩ ⟨0, c⟩
      nextNumber := 1 }
  let flight (phase : Phase) : Flight := ⟨.anonymous, "cat", phase⟩
  have hbegin : s₀.begin .anonymous "cat" = flight (.resolving q) := by
    unfold Searcher.begin
    rw [Cache.get?_empty, hq]
  have hdraft : Phase.ofDraft {} (.ok d) = .consulting d := by
    unfold Phase.ofDraft
    dsimp only
    rw [hrating]
    rfl
  have hkeeping : Phase.ofOutcome ((Except.ok c).mapError .compile) = .keeping c := rfl
  have h₁ : Step ⟨early, s₀, []⟩ (.begin .anonymous "cat")
      ⟨early, s₀, [flight (.resolving q)]⟩ :=
    hbegin ▸ .begin ⟨early, s₀, []⟩ .anonymous "cat"
  have h₂ : Step ⟨early, s₀, [flight (.resolving q)]⟩ (.lookUpTags 0)
      ⟨early, s₀, [flight (.consulting d)]⟩ := by
    rw [← hdraft, ← hd]
    exact .lookUpTags rfl
  have h₃ : Step ⟨early, s₀, [flight (.consulting d)]⟩ (.change late)
      ⟨late, s₀, [flight (.consulting d)]⟩ := .change _ _
  have h₄ : Step ⟨late, s₀, [flight (.consulting d)]⟩ .invalidate
      ⟨late, s₀.invalidate, [flight (.consulting d)]⟩ := .invalidate _
  have h₅ : Step ⟨late, s₀.invalidate, [flight (.consulting d)]⟩ (.lookUpPreferences 0)
      ⟨late, s₀.invalidate, [flight (.keeping c)]⟩ := by
    rw [← hkeeping, ← hc]
    exact .lookUpPreferences rfl
  have h₆ : Step ⟨late, s₀.invalidate, [flight (.keeping c)]⟩ (.keep 0)
      ⟨late, s₁, [flight (.done (.ok ⟨⟨0, c⟩, false⟩))]⟩ :=
    .keep rfl (Cache.takes_insert _ _ _)
  have h₇ : Step ⟨late, s₁, [flight (.done (.ok ⟨⟨0, c⟩, false⟩))]⟩ (.begin .anonymous "cat")
      ⟨late, s₁, [flight (.done (.ok ⟨⟨0, c⟩, false⟩)), flight (.done (.ok ⟨⟨0, c⟩, true⟩))]⟩ :=
    .begin ⟨late, s₁, _⟩ .anonymous "cat"
  have hpast := ((Run.nil.snoc h₁).snoc h₂).snoc h₃
  have hlater := (((Run.nil.snoc h₄).snoc h₅).snoc h₆).snoc h₇
  exact ⟨_, ⟨_, .invalidate, _⟩, [_, _, _], _, ⟨0, c⟩, hpast.append hlater, rfl, rfl, rfl, rfl,
    _, List.mem_append_left _ (List.mem_append_right _ (List.mem_singleton_self _)), rfl⟩

/-- In that run the search whose tags were looked up before the invalidation was on its way then. -/
theorem found_of_search_in_transit :
    ∃ past m later t stored, Run Step (opening {} 2 Store.empty.services) (past ++ m :: later) t ∧
      m.event = .invalidate ∧ m.before.flights.length = 1 ∧
      t.flights[1]? = some ⟨.anonymous, "cat", .done (.ok ⟨stored, true⟩)⟩ ∧
      ∃ f, m.before.flights[0]? = some f ∧ f.phase.InTransit := by
  obtain ⟨past, m, later, t, stored, hrun, hinvalidate, hlength, hkept, hfound, hlook⟩ :=
    exists_late_keep
  obtain ⟨i, -, honly, -, -, htransit⟩ :=
    lookedUp_before_invalidate_iff hrun hinvalidate (Nat.le_of_eq hlength) hfound
  have hi : 0 = i := honly 0 hkept
  subst hi
  exact ⟨past, m, later, t, stored, hrun, hinvalidate, hlength, hfound, htransit.mp hlook⟩

/-- What a search gives that has begun after an invalidation may have been looked up before it. -/
theorem not_forall_lookedUp_after_invalidate :
    ¬∀ (config : Config) (capacity : Nat) (services : Services)
        (past later : List (Moment Traffic Action)) (m : Moment Traffic Action) (t : Traffic)
        (i j : Nat) (viewer : Viewer) (text : String) (found : Found),
      Run Step (opening config capacity services) (past ++ m :: later) t →
      m.event = .invalidate → m.before.flights.length ≤ j →
      t.flights[j]? = some ⟨viewer, text, .done (.ok found)⟩ →
      t.flights[i]? = some ⟨viewer, text, .done (.ok ⟨found.stored, false⟩)⟩ →
      ∀ x ∈ past, ¬x.event.LooksUp i := by
  intro hall
  obtain ⟨past, m, later, t, stored, hrun, hinvalidate, hlength, hkept, hfound, x, hx, hlook⟩ :=
    exists_late_keep
  exact hall {} 2 _ past later m t 0 1 .anonymous "cat" ⟨stored, true⟩ hrun hinvalidate
    (Nat.le_of_eq hlength) hfound hkept x hx hlook

end TagQuery.Traffic
