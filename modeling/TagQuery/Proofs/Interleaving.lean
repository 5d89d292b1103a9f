import TagQuery.Proofs.CachedSearch
import TagQuery.Proofs.Stages

/-!
Searches that run at once on one searcher. Each of them consults the cache when it begins, then
looks up its tags, then the preferences of its viewer, and then puts what it has compiled into the
cache. Other searches, invalidations and changes of what the services answer may come between any
two of these steps.
-/

namespace TagQuery

/-- How far a search has come. -/
inductive Phase where
  | resolving (q : Query)
  | consulting (d : Draft)
  | keeping (c : Compiled)
  | done (outcome : Except SearchError Found)

namespace Phase

/-- After the compilation. -/
def ofOutcome : Except SearchError Compiled → Phase
  | .error e => .done (.error e)
  | .ok c => .keeping c

/-- After the tags have been looked up. The preferences only matter to some queries. -/
def ofDraft (config : Config) : Except CompileError Draft → Phase
  | .error e => .done (.error (.compile e))
  | .ok d => if d.constrainsRating then .keeping (d.finish config none) else .consulting d

theorem ofOutcome_ne_ok {outcome : Except SearchError Compiled} {found : Found} :
    ofOutcome outcome ≠ .done (.ok found) := by
  cases outcome <;> nofun

theorem ofDraft_ne_ok {config : Config} {drafted : Except CompileError Draft} {found : Found} :
    ofDraft config drafted ≠ .done (.ok found) := by
  cases drafted with
  | error e => nofun
  | ok d =>
      unfold ofDraft
      dsimp only
      split <;> nofun

/-- The search has looked something up and has not put it into the cache yet. -/
def InTransit : Phase → Prop
  | .consulting _ | .keeping _ => True
  | .resolving _ | .done _ => False

end Phase

/-- A search that has begun. -/
structure Flight where
  viewer : Viewer
  text : String
  phase : Phase

/-- How a search begins. What is in the cache needs no lookup. -/
def Searcher.begin (s : Searcher) (viewer : Viewer) (text : String) : Flight where
  viewer := viewer
  text := text
  phase :=
    match s.cache.get? ⟨text, viewer⟩ with
    | some stored => .done (.ok ⟨stored, true⟩)
    | none =>
      match Query.parse text with
      | .error e => .done (.error (.malformed e))
      | .ok q => .resolving q

theorem Searcher.begin_cases (s : Searcher) (viewer : Viewer) (text : String) :
    (∃ stored, s.cache.get? ⟨text, viewer⟩ = some stored ∧
      s.begin viewer text = ⟨viewer, text, .done (.ok ⟨stored, true⟩)⟩) ∨
    (∃ e, s.begin viewer text = ⟨viewer, text, .done (.error e)⟩) ∨
    ∃ q, Query.parse text = .ok q ∧ s.begin viewer text = ⟨viewer, text, .resolving q⟩ := by
  unfold Searcher.begin
  cases s.cache.get? ⟨text, viewer⟩ with
  | some stored => exact Or.inl ⟨stored, rfl, rfl⟩
  | none =>
      cases Query.parse text with
      | error e => exact Or.inr (Or.inl ⟨_, rfl⟩)
      | ok q => exact Or.inr (Or.inr ⟨q, rfl, rfl⟩)

/-- A searcher, the services that it asks and the searches that have begun, in the order in which
they have. -/
structure Traffic where
  services : Services
  searcher : Searcher
  flights : List Flight

inductive Action where
  | begin (viewer : Viewer) (text : String)
  | lookUpTags (search : Nat)
  | lookUpPreferences (search : Nat)
  | keep (search : Nat)
  | invalidate
  | change (services : Services)
  | drop

/-- The action is a lookup of a search. -/
def Action.LooksUp (i : Nat) : Action → Prop
  | .lookUpTags j | .lookUpPreferences j => j = i
  | .begin _ _ | .keep _ | .invalidate | .change _ | .drop => False

namespace Traffic

/-- One more search has begun. -/
def add (t : Traffic) (f : Flight) : Traffic :=
  { t with flights := t.flights ++ [f] }

/-- The search with a number has come to a phase. -/
def move (t : Traffic) (i : Nat) (viewer : Viewer) (text : String) (phase : Phase) : Traffic :=
  { t with flights := t.flights.set i ⟨viewer, text, phase⟩ }

inductive Step : Traffic → Action → Traffic → Prop where
  | begin (t : Traffic) (viewer : Viewer) (text : String) :
      Step t (.begin viewer text) (t.add (t.searcher.begin viewer text))
  | lookUpTags {t : Traffic} {i : Nat} {viewer : Viewer} {text : String} {q : Query}
      (hf : t.flights[i]? = some ⟨viewer, text, .resolving q⟩) :
      Step t (.lookUpTags i) (t.move i viewer text
        (.ofDraft t.searcher.config (q.lookUpTags t.services.resolve t.searcher.config)))
  | lookUpPreferences {t : Traffic} {i : Nat} {viewer : Viewer} {text : String} {d : Draft}
      (hf : t.flights[i]? = some ⟨viewer, text, .consulting d⟩) :
      Step t (.lookUpPreferences i) (t.move i viewer text (.ofOutcome
        ((d.lookUpPreferences (t.services.visibility viewer) t.searcher.config).mapError .compile)))
  | keep {t : Traffic} {i : Nat} {viewer : Viewer} {text : String} {c : Compiled}
      {cache : Cache Stored} (hf : t.flights[i]? = some ⟨viewer, text, .keeping c⟩)
      (hcache : t.searcher.cache.Takes ⟨text, viewer⟩ ⟨t.searcher.nextNumber, c⟩ cache) :
      Step t (.keep i)
        { t.move i viewer text (.done (.ok ⟨⟨t.searcher.nextNumber, c⟩, false⟩)) with
          searcher :=
            { t.searcher with cache := cache, nextNumber := t.searcher.nextNumber + 1 } }
  | invalidate (t : Traffic) : Step t .invalidate { t with searcher := t.searcher.invalidate }
  | change (t : Traffic) (services : Services) :
      Step t (.change services) { t with services := services }
  | drop {t : Traffic} {cache : Cache Stored} (h : t.searcher.cache.Drops cache) :
      Step t .drop { t with searcher := { t.searcher with cache := cache } }

/-- A searcher with an empty cache before any search. -/
def opening (config : Config) (capacity : Nat) (services : Services) : Traffic where
  services := services
  searcher := { config := config, cache := .empty capacity }
  flights := []

section Alone

variable (t : Traffic) (viewer : Viewer) (text : String)

theorem getElem?_add (f : Flight) : (t.add f).flights[t.flights.length]? = some f :=
  List.getElem?_concat_length

theorem move_add (f : Flight) (phase : Phase) :
    (t.add f).move t.flights.length viewer text phase = t.add ⟨viewer, text, phase⟩ := by
  unfold move add
  dsimp only
  rw [List.set_append_right _ _ (Nat.le_refl _), Nat.sub_self, List.set_cons_zero]

theorem exists_run_complete (drafted : Except CompileError Draft) :
    ∃ steps, Run Step (t.add ⟨viewer, text, .ofDraft t.searcher.config drafted⟩) steps
      (t.add ⟨viewer, text, .ofOutcome ((drafted.bind fun d =>
        d.complete (t.services.visibility viewer) t.searcher.config).mapError .compile)⟩) := by
  cases drafted with
  | error e => exact ⟨[], .nil⟩
  | ok d =>
      unfold Phase.ofDraft Except.bind Draft.complete
      dsimp only
      split
      · exact ⟨[], .nil⟩
      · have hstep := Step.lookUpPreferences (t.getElem?_add ⟨viewer, text, .consulting d⟩)
        rw [move_add] at hstep
        exact ⟨_, Run.nil.snoc hstep⟩

theorem exists_run_compile (q : Query) :
    ∃ steps, Run Step (t.add ⟨viewer, text, .resolving q⟩) steps
      (t.add ⟨viewer, text, .ofOutcome
        ((compile t.services t.searcher.config viewer q).outcome.mapError .compile)⟩) := by
  have hstep := Step.lookUpTags (t.getElem?_add ⟨viewer, text, .resolving q⟩)
  rw [move_add] at hstep
  obtain ⟨steps, hrun⟩ := t.exists_run_complete viewer text
    (q.lookUpTags t.services.resolve t.searcher.config)
  rw [← compile_outcome] at hrun
  exact ⟨_, (Run.nil.snoc hstep).append hrun⟩

variable {t viewer text}

theorem exists_run_compileText (hmiss : t.searcher.cache.get? ⟨text, viewer⟩ = none) :
    ∃ steps, Run Step t steps (t.add ⟨viewer, text, .ofOutcome
      (compileText t.services t.searcher.config viewer text)⟩) := by
  have hbegin := Step.begin t viewer text
  unfold Searcher.begin at hbegin
  rw [hmiss] at hbegin
  cases hparse : Query.parse text with
  | error e =>
      rw [hparse] at hbegin
      rw [compileText_of_malformed hparse]
      exact ⟨_, Run.nil.snoc hbegin⟩
  | ok q =>
      rw [hparse] at hbegin
      rw [compileText_of_parse hparse]
      obtain ⟨steps, hrun⟩ := t.exists_run_compile viewer text q
      exact ⟨_, (Run.nil.snoc hbegin).append hrun⟩

/-- A search that is not interrupted goes in each of the ways in which a search can go. -/
theorem exists_run_of_searches {outcome : Except SearchError Found} {searcher : Searcher}
    (h : t.searcher.Searches t.services viewer text outcome searcher) :
    ∃ steps, Run Step t steps
      { t.add ⟨viewer, text, .done outcome⟩ with searcher := searcher } := by
  cases h with
  | hit hhit =>
      have hbegin := Step.begin t viewer text
      unfold Searcher.begin at hbegin
      rw [hhit] at hbegin
      exact ⟨_, Run.nil.snoc hbegin⟩
  | failed hmiss h =>
      obtain ⟨steps, hrun⟩ := exists_run_compileText hmiss
      rw [h] at hrun
      exact ⟨steps, hrun⟩
  | compiled hmiss h hcache =>
      obtain ⟨steps, hrun⟩ := exists_run_compileText hmiss
      rw [h] at hrun
      have hkeep := Step.keep (t.getElem?_add ⟨viewer, text, .keeping _⟩) hcache
      rw [move_add] at hkeep
      exact ⟨_, hrun.snoc hkeep⟩

end Alone

/-! ### What a step does to a search -/

/-- The ways in which a search with a number can come to be as it is after a step. -/
inductive Came (t : Traffic) (i : Nat) : Action → Flight → Prop where
  | stayed {a : Action} {f : Flight} (hf : t.flights[i]? = some f) (ha : ¬a.LooksUp i) :
      Came t i a f
  | begun {viewer : Viewer} {text : String} (hi : i = t.flights.length) :
      Came t i (.begin viewer text) (t.searcher.begin viewer text)
  | drafted {viewer : Viewer} {text : String} {q : Query}
      (hf : t.flights[i]? = some ⟨viewer, text, .resolving q⟩) :
      Came t i (.lookUpTags i) ⟨viewer, text,
        .ofDraft t.searcher.config (q.lookUpTags t.services.resolve t.searcher.config)⟩
  | compiled {viewer : Viewer} {text : String} {d : Draft}
      (hf : t.flights[i]? = some ⟨viewer, text, .consulting d⟩) :
      Came t i (.lookUpPreferences i) ⟨viewer, text, .ofOutcome
        ((d.lookUpPreferences (t.services.visibility viewer) t.searcher.config).mapError .compile)⟩
  | kept {viewer : Viewer} {text : String} {c : Compiled}
      (hf : t.flights[i]? = some ⟨viewer, text, .keeping c⟩) :
      Came t i (.keep i) ⟨viewer, text, .done (.ok ⟨⟨t.searcher.nextNumber, c⟩, false⟩)⟩

section

variable {t t' : Traffic} {a : Action} {i j : Nat} {f : Flight} {viewer : Viewer} {text : String}
  {phase : Phase} {outcome : Except SearchError Found}

theorem getElem?_add_eq_some {g : Flight} (h : (t.add g).flights[i]? = some f) :
    t.flights[i]? = some f ∨ (i = t.flights.length ∧ f = g) :=
  (getElem?_concat_eq_some_iff.mp h).imp_right fun ⟨hi, hg⟩ => ⟨hi, hg.symm⟩

theorem getElem?_move_eq_some (h : (t.move j viewer text phase).flights[i]? = some f) :
    (i ≠ j ∧ t.flights[i]? = some f) ∨ (i = j ∧ f = ⟨viewer, text, phase⟩) := by
  unfold move at h
  rw [List.getElem?_set] at h
  split at h
  next heq =>
    split at h
    next => exact Or.inr ⟨heq.symm, (Option.some.inj h).symm⟩
    next => cases h
  next hne => exact Or.inl ⟨Ne.symm hne, h⟩

theorem getElem?_move_of_ne (hne : i ≠ j) :
    (t.move j viewer text phase).flights[i]? = t.flights[i]? :=
  List.getElem?_set_ne hne.symm

theorem Step.came (h : Step t a t') (hf : t'.flights[i]? = some f) : Came t i a f := by
  cases h with
  | begin =>
      rcases getElem?_add_eq_some hf with hf | ⟨rfl, rfl⟩
      · exact .stayed hf id
      · exact .begun rfl
  | lookUpTags hold =>
      rcases getElem?_move_eq_some hf with ⟨hne, hf⟩ | ⟨rfl, rfl⟩
      · exact .stayed hf (Ne.symm hne)
      · exact .drafted hold
  | lookUpPreferences hold =>
      rcases getElem?_move_eq_some hf with ⟨hne, hf⟩ | ⟨rfl, rfl⟩
      · exact .stayed hf (Ne.symm hne)
      · exact .compiled hold
  | keep hold =>
      rcases getElem?_move_eq_some hf with ⟨hne, hf⟩ | ⟨rfl, rfl⟩
      · exact .stayed hf id
      · exact .kept hold
  | invalidate | change | drop => exact .stayed hf id

/-- A search that is done stays as it is. -/
theorem Step.getElem?_of_done (h : Step t a t')
    (hf : t.flights[i]? = some ⟨viewer, text, .done outcome⟩) :
    t'.flights[i]? = some ⟨viewer, text, .done outcome⟩ := by
  have hmoves {j : Nat} {viewer' : Viewer} {text' : String} {phase : Phase}
      (hold : t.flights[j]? = some ⟨viewer', text', phase⟩)
      (hphase : ∀ outcome, phase ≠ .done outcome) : i ≠ j := by
    rintro rfl
    cases hf.symm.trans hold
    exact hphase _ rfl
  cases h with
  | begin =>
      have hlt := (List.getElem?_eq_some_iff.mp hf).1
      exact (List.getElem?_append_left hlt).trans hf
  | lookUpTags hold | lookUpPreferences hold | keep hold =>
      exact (getElem?_move_of_ne (hmoves hold fun _ h => by cases h)).trans hf
  | invalidate | change | drop => exact hf

theorem getElem?_of_done_of_run {steps : List (Moment Traffic Action)} (h : Run Step t steps t')
    (hf : t.flights[i]? = some ⟨viewer, text, .done outcome⟩) :
    t'.flights[i]? = some ⟨viewer, text, .done outcome⟩ := by
  induction h with
  | nil => exact hf
  | snoc _ hstep ih => exact hstep.getElem?_of_done ih

theorem event_ne_keep_of_done {steps : List (Moment Traffic Action)} (h : Run Step t steps t')
    (hf : t.flights[i]? = some ⟨viewer, text, .done outcome⟩) : ∀ m ∈ steps, m.event ≠ .keep i := by
  rintro ⟨before, event, after⟩ hm rfl
  obtain ⟨earlier, later, rfl⟩ := List.append_of_mem hm
  obtain ⟨hearlier, hstep, -⟩ := h.cut
  dsimp only at hearlier hstep
  cases hstep with
  | keep hold => cases (getElem?_of_done_of_run hearlier hf).symm.trans hold

theorem Step.config_eq (h : Step t a t') : t'.searcher.config = t.searcher.config := by
  cases h <;> rfl

theorem Step.nextNumber_le (h : Step t a t') :
    t.searcher.nextNumber ≤ t'.searcher.nextNumber := by
  cases h with
  | keep => exact Nat.le_succ _
  | begin | lookUpTags | lookUpPreferences | invalidate | change | drop => exact Nat.le_refl _

theorem Step.nextNumber_keep (h : Step t (.keep i) t') :
    t'.searcher.nextNumber = t.searcher.nextNumber + 1 := by
  cases h
  rfl

theorem Step.length_le (h : Step t a t') : t.flights.length ≤ t'.flights.length := by
  cases h with
  | begin =>
      show _ ≤ (t.flights ++ [_]).length
      rw [List.length_append]
      exact Nat.le_add_right _ _
  | lookUpTags | lookUpPreferences | keep =>
      show _ ≤ (t.flights.set _ _).length
      rw [List.length_set]
  | invalidate | change | drop => exact Nat.le_refl _

/-- Only what a search puts into the cache comes into it. -/
theorem Step.entry_cases {stored : Stored} (h : Step t a t')
    (hentry : t'.searcher.cache.get? ⟨text, viewer⟩ = some stored) :
    t.searcher.cache.get? ⟨text, viewer⟩ = some stored ∨
      ∃ i, a = .keep i ∧ t'.flights[i]? = some ⟨viewer, text, .done (.ok ⟨stored, false⟩)⟩ := by
  cases h with
  | begin | lookUpTags | lookUpPreferences | change => exact Or.inl hentry
  | keep hf hcache =>
      rcases hcache.get? _ _ hentry with ⟨hkey, rfl⟩ | ⟨-, hold⟩
      · cases hkey
        exact Or.inr ⟨_, rfl, List.getElem?_set_self (List.getElem?_eq_some_iff.mp hf).1⟩
      · exact Or.inl hold
  | invalidate => cases (Cache.get?_clear _ _).symm.trans hentry
  | drop hcache => exact Or.inl (hcache.get? _ _ hentry)

/-- Only a search that has begun looks something up. -/
theorem Step.lt_length (h : Step t a t') (ha : a.LooksUp i) : i < t.flights.length := by
  cases h with
  | lookUpTags hf =>
      cases ha
      exact (List.getElem?_eq_some_iff.mp hf).1
  | lookUpPreferences hf =>
      cases ha
      exact (List.getElem?_eq_some_iff.mp hf).1
  | begin | keep | invalidate | change | drop => cases ha

/-- Only a step that puts something into the cache makes an object, under a number of its own. -/
theorem Step.kept_cases {stored : Stored} (h : Step t a t')
    (hf : t'.flights[i]? = some ⟨viewer, text, .done (.ok ⟨stored, false⟩)⟩) :
    t.flights[i]? = some ⟨viewer, text, .done (.ok ⟨stored, false⟩)⟩ ∨
      (a = .keep i ∧ stored.number = t.searcher.nextNumber) := by
  generalize hg : (⟨viewer, text, .done (.ok ⟨stored, false⟩)⟩ : Flight) = g at hf ⊢
  cases h.came hf with
  | stayed hf => exact Or.inl hf
  | begun hi =>
      rcases t.searcher.begin_cases _ _ with ⟨_, _, hbegin⟩ | ⟨_, hbegin⟩ | ⟨_, _, hbegin⟩ <;>
        cases hg.trans hbegin
  | drafted => exact absurd (congrArg Flight.phase hg).symm Phase.ofDraft_ne_ok
  | compiled => exact absurd (congrArg Flight.phase hg).symm Phase.ofOutcome_ne_ok
  | kept hf =>
      cases hg
      exact Or.inr ⟨rfl, rfl⟩

end

end Traffic

end TagQuery
