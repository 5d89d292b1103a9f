import TagQuery.Proofs.History

/-!
Runs of searches, invalidations and changes of the store on one searcher, whose cache may drop
entries at any moment. Each entry of the cache is an object that a search with the same text for the
same viewer has compiled since the last invalidation, on the store as it was then.
-/

namespace TagQuery

/-- A searcher and the store that it asks. -/
structure Session where
  store : Store
  searcher : Searcher

/-- The ways in which a search can go, with what it gives and with the searcher after it. The cache
may drop entries when it is given one. -/
inductive Searcher.Searches (s : Searcher) (services : Services) (viewer : Viewer) (text : String) :
    Except SearchError Found → Searcher → Prop where
  | hit {stored : Stored} (hhit : s.cache.get? ⟨text, viewer⟩ = some stored) :
      Searches s services viewer text (.ok ⟨stored, true⟩) s
  | failed {e : SearchError} (hmiss : s.cache.get? ⟨text, viewer⟩ = none)
      (h : compileText services s.config viewer text = .error e) :
      Searches s services viewer text (.error e) s
  | compiled {c : Compiled} {cache : Cache Stored} (hmiss : s.cache.get? ⟨text, viewer⟩ = none)
      (h : compileText services s.config viewer text = .ok c)
      (hcache : s.cache.Takes ⟨text, viewer⟩ ⟨s.nextNumber, c⟩ cache) :
      Searches s services viewer text (.ok ⟨⟨s.nextNumber, c⟩, false⟩)
        { s with cache := cache, nextNumber := s.nextNumber + 1 }

/-- A search goes in one of these ways. -/
theorem Searcher.searches_search (s : Searcher) (services : Services) (viewer : Viewer)
    (text : String) :
    s.Searches services viewer text (s.search services viewer text).1
      (s.search services viewer text).2 := by
  unfold search
  dsimp only
  split
  next stored hhit => exact .hit hhit
  next hmiss =>
    split
    next e he => exact .failed hmiss he
    next c hc => exact .compiled hmiss hc (s.cache.takes_insert _ _)

/-- What happens in a session. -/
inductive Event where
  | search (viewer : Viewer) (text : String) (outcome : Except SearchError Found)
  | invalidate
  | change (change : Store.Change)
  | drop

inductive Session.Step : Session → Event → Session → Prop where
  | search {w : Session} {viewer : Viewer} {text : String} {outcome : Except SearchError Found}
      {searcher : Searcher}
      (h : w.searcher.Searches w.store.services viewer text outcome searcher) :
      Step w (.search viewer text outcome) { w with searcher := searcher }
  | invalidate (w : Session) : Step w .invalidate { w with searcher := w.searcher.invalidate }
  | change (w : Session) (change : Store.Change) :
      Step w (.change change) { w with store := w.store.after change }
  | drop {w : Session} {cache : Cache Stored} (h : w.searcher.cache.Drops cache) :
      Step w .drop { w with searcher := { w.searcher with cache := cache } }

/-- A session on a store with an empty cache. -/
def Session.opening (config : Config) (capacity : Nat) (store : Store) : Session where
  store := store
  searcher := { config := config, cache := .empty capacity }

/-- One of the steps is a search that has compiled the object for the text and the viewer, on the
store as it was then, and no step after it is an invalidation. -/
def CompiledSince (config : Config) (past : List (Moment Session Event)) (viewer : Viewer)
    (text : String) (stored : Stored) : Prop :=
  ∃ earlier m later, past = earlier ++ m :: later ∧
    m.event = .search viewer text (.ok ⟨stored, false⟩) ∧
    compileText m.before.store.services config viewer text = .ok stored.compiled ∧
    ∀ x ∈ later, x.event ≠ .invalidate

section

variable {config : Config} {capacity : Nat} {store : Store} {past : List (Moment Session Event)}
  {w w' : Session} {event : Event} {viewer : Viewer} {text : String} {stored : Stored}

theorem CompiledSince.snoc (h : CompiledSince config past viewer text stored)
    {m : Moment Session Event} (hm : m.event ≠ .invalidate) :
    CompiledSince config (past ++ [m]) viewer text stored := by
  obtain ⟨earlier, m₀, later, rfl, hevent, hcompiled, hlater⟩ := h
  refine ⟨earlier, m₀, later ++ [m], by simp, hevent, hcompiled, ?_⟩
  intro x hx
  rcases List.mem_append.mp hx with hx | hx
  · exact hlater x hx
  · exact List.mem_singleton.mp hx ▸ hm

/-- What holds of a session at any moment of a run. -/
structure Accounted (config : Config) (capacity : Nat) (past : List (Moment Session Event))
    (w : Session) : Prop where
  config_eq : w.searcher.config = config
  capacity_eq : w.searcher.cache.capacity = capacity
  entries : ∀ viewer text stored, w.searcher.cache.get? ⟨text, viewer⟩ = some stored →
    CompiledSince config past viewer text stored
  numbers : ∀ m ∈ past, ∀ viewer text found, m.event = .search viewer text (.ok found) →
    found.stored.number < w.searcher.nextNumber

theorem accounted_opening :
    Accounted config capacity [] (.opening config capacity store) where
  config_eq := rfl
  capacity_eq := rfl
  entries _ _ _ hentry := nomatch (Cache.get?_empty _ _).symm.trans hentry
  numbers _ hm := absurd hm List.not_mem_nil

namespace Accounted

/-- The number of an entry is no longer free. -/
theorem number_lt (h : Accounted config capacity past w)
    (hentry : w.searcher.cache.get? ⟨text, viewer⟩ = some stored) :
    stored.number < w.searcher.nextNumber := by
  obtain ⟨earlier, m, later, rfl, hevent, -, -⟩ := h.entries viewer text stored hentry
  exact h.numbers m (List.mem_append_right _ List.mem_cons_self) viewer text _ hevent

/-- A step that finds no more in the cache than before, and uses up no number but those it takes
from the searcher, keeps to the account. -/
theorem snoc_of_drops (h : Accounted config capacity past w) (hevent : event ≠ .invalidate)
    (hsearcher : w'.searcher.config = w.searcher.config ∧
      w'.searcher.nextNumber = w.searcher.nextNumber)
    (hcache : w.searcher.cache.Drops w'.searcher.cache)
    (hnumber : ∀ viewer text found, event = .search viewer text (.ok found) →
      found.stored.number < w.searcher.nextNumber) :
    Accounted config capacity (past ++ [⟨w, event, w'⟩]) w' where
  config_eq := hsearcher.1.trans h.config_eq
  capacity_eq := hcache.capacity.trans h.capacity_eq
  entries viewer text stored hentry :=
    (h.entries viewer text stored (hcache.get? _ _ hentry)).snoc hevent
  numbers m hm viewer text found hfound := by
    rw [hsearcher.2]
    rcases List.mem_append.mp hm with hm | hm
    · exact h.numbers m hm viewer text found hfound
    · cases List.mem_singleton.mp hm
      exact hnumber viewer text found hfound

/-- A search that compiles adds one entry to the account, under a number of its own. -/
theorem snoc_of_takes (h : Accounted config capacity past w) {c : Compiled} {cache : Cache Stored}
    (hc : compileText w.store.services w.searcher.config viewer text = .ok c)
    (hcache : w.searcher.cache.Takes ⟨text, viewer⟩ ⟨w.searcher.nextNumber, c⟩ cache)
    (hevent : event = .search viewer text (.ok ⟨⟨w.searcher.nextNumber, c⟩, false⟩))
    (hafter : w'.searcher =
      { w.searcher with cache := cache, nextNumber := w.searcher.nextNumber + 1 }) :
    Accounted config capacity (past ++ [⟨w, event, w'⟩]) w' where
  config_eq := by rw [hafter, ← h.config_eq]
  capacity_eq := by rw [hafter, ← h.capacity_eq, ← hcache.capacity]
  entries viewer' text' stored hentry := by
    rw [hafter] at hentry
    have hcompiled : compileText w.store.services config viewer text = .ok c := by
      rw [← h.config_eq, hc]
    rcases hcache.get? _ _ hentry with ⟨hkey, rfl⟩ | ⟨-, hold⟩
    · cases hkey
      exact ⟨past, ⟨w, event, w'⟩, [], rfl, hevent, hcompiled, by simp⟩
    · exact (h.entries viewer' text' stored hold).snoc (by rw [hevent]; nofun)
  numbers m hm viewer' text' found hfound := by
    rw [hafter]
    rcases List.mem_append.mp hm with hm | hm
    · exact Nat.lt_succ_of_lt (h.numbers m hm viewer' text' found hfound)
    · cases List.mem_singleton.mp hm
      cases hevent.symm.trans hfound
      exact Nat.lt_succ_self _

theorem snoc (h : Accounted config capacity past w) (hstep : Session.Step w event w') :
    Accounted config capacity (past ++ [⟨w, event, w'⟩]) w' := by
  cases hstep with
  | search hsearch =>
      cases hsearch with
      | hit hhit =>
          refine h.snoc_of_drops nofun ⟨rfl, rfl⟩ (.refl _) ?_
          rintro _ _ _ ⟨⟩
          exact h.number_lt hhit
      | failed hmiss he => exact h.snoc_of_drops nofun ⟨rfl, rfl⟩ (.refl _) nofun
      | compiled hmiss hc hcache => exact h.snoc_of_takes hc hcache rfl rfl
  | invalidate =>
      refine ⟨h.config_eq, h.capacity_eq, fun _ _ _ hentry => ?_, ?_⟩
      · cases (Cache.get?_clear _ _).symm.trans hentry
      · intro m hm viewer text found hfound
        rcases List.mem_append.mp hm with hm | hm
        · exact h.numbers m hm viewer text found hfound
        · cases List.mem_singleton.mp hm
          cases hfound
  | change => exact h.snoc_of_drops nofun ⟨rfl, rfl⟩ (.refl _) nofun
  | drop hcache => exact h.snoc_of_drops nofun ⟨rfl, rfl⟩ hcache nofun

end Accounted

theorem accounted_of_run (h : Run Session.Step (.opening config capacity store) past w) :
    Accounted config capacity past w := by
  induction h with
  | nil => exact accounted_opening
  | snoc _ hstep ih => exact ih.snoc hstep

end

/-- At any moment of a run on one searcher its cache is within its bound, and it can search. A
search that succeeds then gives what its text compiles to on the store, as an object whose number
has not been given before, or else an object from the cache that a search for the same text and
viewer has compiled since the last invalidation. A search that fails does so as the compilation
does, and changes nothing. -/
theorem search_current_or_compiledSince {config : Config} {capacity : Nat} {store : Store}
    {past : List (Moment Session Event)} {w : Session}
    (h : Run Session.Step (.opening config capacity store) past w) :
    w.searcher.cache.size ≤ max capacity 1 ∧
    (∀ viewer text, Session.Step w
      (.search viewer text (w.searcher.search w.store.services viewer text).1)
      { w with searcher := (w.searcher.search w.store.services viewer text).2 }) ∧
    (∀ viewer text found w', Session.Step w (.search viewer text (.ok found)) w' →
      (found.cached = false ∧
        compileText w.store.services config viewer text = .ok found.stored.compiled ∧
        ∀ m ∈ past, ∀ viewer text earlier, m.event = .search viewer text (.ok earlier) →
          earlier.stored.number ≠ found.stored.number) ∨
      (found.cached = true ∧ CompiledSince config past viewer text found.stored)) ∧
    ∀ viewer text e w', Session.Step w (.search viewer text (.error e)) w' →
      compileText w.store.services config viewer text = .error e ∧ w' = w := by
  have haccount := accounted_of_run h
  refine ⟨?_, ?_, ?_, ?_⟩
  · rw [← haccount.capacity_eq]
    exact w.searcher.cache.size_le
  · exact fun viewer text => .search (w.searcher.searches_search w.store.services viewer text)
  · rintro viewer text found w' ⟨hsearch⟩
    cases hsearch with
    | hit hhit => exact Or.inr ⟨rfl, haccount.entries viewer text _ hhit⟩
    | compiled hmiss hc hcache =>
        refine Or.inl ⟨rfl, haccount.config_eq ▸ hc, fun m hm viewer text earlier hevent => ?_⟩
        exact Nat.ne_of_lt (haccount.numbers m hm viewer text earlier hevent)
  · rintro viewer text e w' ⟨hsearch⟩
    cases hsearch with
    | failed hmiss he => exact ⟨haccount.config_eq ▸ he, rfl⟩

/-- A tag that is made after a search for it is not found by the next one. -/
theorem compiledSince_of_late_tag :
    ∃ past w stored, Run Session.Step (.opening {} 2 .empty) past w ∧
      w.store.resolve "cat" = some 0 ∧
      Session.Step w (.search .anonymous "cat" (.ok ⟨stored, true⟩)) w ∧
      CompiledSince {} past .anonymous "cat" stored := by
  obtain ⟨c, hc⟩ : ∃ c, compileText Store.empty.services {} .anonymous "cat" = .ok c := ⟨_, by cbv⟩
  let w₀ := Session.opening {} 2 .empty
  let w₁ : Session :=
    { store := w₀.store
      searcher :=
        { w₀.searcher with
          cache := w₀.searcher.cache.insert ⟨"cat", .anonymous⟩ ⟨0, c⟩
          nextNumber := 1 } }
  let w₂ : Session := { w₁ with store := w₁.store.after (.createTag "cat") }
  have hfirst : w₀.Step (.search .anonymous "cat" (.ok ⟨⟨0, c⟩, false⟩)) w₁ :=
    .search (.compiled rfl hc (Cache.takes_insert _ _ _))
  have hrun : Run Session.Step w₀ _ w₂ := (Run.nil.snoc hfirst).snoc (.change w₁ _)
  have hsecond : w₂.Step (.search .anonymous "cat" (.ok ⟨⟨0, c⟩, true⟩)) w₂ := .search (.hit rfl)
  have htag : (Store.empty.after (.createTag "cat")).resolve "cat" = some 0 := by decide +kernel
  obtain ⟨-, -, hfound, -⟩ := search_current_or_compiledSince hrun
  rcases hfound _ _ _ _ hsecond with ⟨hcached, -⟩ | ⟨-, hsince⟩
  · cases hcached
  · exact ⟨_, w₂, _, hrun, htag, hsecond, hsince⟩

end TagQuery
