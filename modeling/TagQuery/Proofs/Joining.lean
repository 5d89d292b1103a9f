import TagQuery.Proofs.Batching

/-!
Lookups that run at once, and lookups under a limit: how they end, said without saying how they are
run. There is one way only in which lookups that run at once can end.
-/

namespace TagQuery

namespace Answer

variable {α κ : Type} {answers : List (κ × Answer α)} {delay : Nat} {text : String}

/-- The lookup at some place fails, and when. -/
def FailsAt (answers : List (κ × Answer α)) (place delay : Nat) (text : String) : Prop :=
  ∃ key, answers[place]? = some (key, ⟨delay, .error text⟩)

/-- A failure comes first: any other is later, or comes at the same time and stands no earlier in
the list. -/
def IsFirstFailure (answers : List (κ × Answer α)) (delay : Nat) (text : String) : Prop :=
  ∃ place, FailsAt answers place delay text ∧
    ∀ place' delay' text', FailsAt answers place' delay' text' →
      delay < delay' ∨ delay = delay' ∧ place ≤ place'

/-- Lookups that all succeed, with their values. -/
def AllSucceed (answers : List (κ × Answer α)) (values : List (κ × α)) : Prop :=
  List.Forall₂ (fun answer value => answer.1 = value.1 ∧ answer.2.result = .ok value.2)
    answers values

/-- How lookups that run at once end: with the first failure, or else with the last of them. -/
inductive EndsAs (answers : List (κ × Answer α)) : Answer (List (κ × α)) → Prop
  | failure {delay : Nat} {text : String} (hfirst : IsFirstFailure answers delay text) :
      EndsAs answers ⟨delay, .error text⟩
  | success {delay : Nat} {values : List (κ × α)} (hall : AllSucceed answers values)
      (hlast : IsLeast {time | ∀ answer ∈ answers, answer.2.delay ≤ time} delay) :
      EndsAs answers ⟨delay, .ok values⟩

/-- A way to join lookups that runs them at once. -/
def RunsAtOnce (join : List (κ × Answer α) → Answer (List (κ × α))) : Prop :=
  ∀ answers, EndsAs answers (join answers)

theorem IsFirstFailure.unique {delay' : Nat} {text' : String}
    (h : IsFirstFailure answers delay text) (h' : IsFirstFailure answers delay' text') :
    delay = delay' ∧ text = text' := by
  obtain ⟨place, hfails, hfirst⟩ := h
  obtain ⟨place', hfails', hfirst'⟩ := h'
  have hle := hfirst _ _ _ hfails'
  have hle' := hfirst' _ _ _ hfails
  obtain rfl : place = place' := by omega
  obtain ⟨key, hplace⟩ := hfails
  obtain ⟨key', hplace'⟩ := hfails'
  cases hplace.symm.trans hplace'
  exact ⟨rfl, rfl⟩

theorem AllSucceed.not_failsAt {values : List (κ × α)} (h : AllSucceed answers values)
    {place : Nat} : ¬FailsAt answers place delay text := by
  rintro ⟨key, hplace⟩
  obtain ⟨value, -, -, hresult⟩ := exists_of_mem_left h (List.mem_of_getElem? hplace)
  cases hresult

theorem AllSucceed.not_isFirstFailure {values : List (κ × α)} (h : AllSucceed answers values) :
    ¬IsFirstFailure answers delay text :=
  fun ⟨_, hfails, _⟩ => h.not_failsAt hfails

theorem AllSucceed.unique {values values' : List (κ × α)} (h : AllSucceed answers values)
    (h' : AllSucceed answers values') : values = values' :=
  Except.ok.inj ((collect_eq_ok_iff.mpr h).symm.trans (collect_eq_ok_iff.mpr h'))

/-- Lookups that run at once end in one way only. -/
theorem EndsAs.unique {batch batch' : Answer (List (κ × α))} (h : EndsAs answers batch)
    (h' : EndsAs answers batch') : batch = batch' := by
  cases h with
  | failure hfirst =>
      cases h' with
      | failure hfirst' =>
          obtain ⟨rfl, rfl⟩ := hfirst.unique hfirst'
          rfl
      | success hall _ => exact absurd hfirst hall.not_isFirstFailure
  | success hall hlast =>
      cases h' with
      | failure hfirst => exact absurd hfirst hall.not_isFirstFailure
      | success hall' hlast' =>
          cases hall.unique hall'
          cases hlast.unique hlast'
          rfl

theorem EndsAs.result_of_allSucceed {batch : Answer (List (κ × α))} {values : List (κ × α)}
    (h : EndsAs answers batch) (hall : AllSucceed answers values) : batch.result = .ok values := by
  cases h with
  | failure hfirst => exact absurd hfirst hall.not_isFirstFailure
  | success hall' _ => rw [hall.unique hall']

theorem EndsAs.allSucceed_of_result {batch : Answer (List (κ × α))} {values : List (κ × α)}
    (h : EndsAs answers batch) (hresult : batch.result = .ok values) :
    AllSucceed answers values := by
  cases h with
  | failure _ => cases hresult
  | success hall _ =>
      cases hresult
      exact hall

theorem FailsAt.succ {first : κ × Answer α} {place : Nat} (h : FailsAt answers place delay text) :
    FailsAt (first :: answers) (place + 1) delay text :=
  h

/-- A failure stays the first beside a lookup that succeeds, or that fails later. -/
theorem IsFirstFailure.cons {first : κ × Answer α} (h : IsFirstFailure answers delay text)
    (hlater : ∀ text', first.2.result = .error text' → delay < first.2.delay) :
    IsFirstFailure (first :: answers) delay text := by
  obtain ⟨place, hfails, hfirst⟩ := h
  refine ⟨place + 1, hfails.succ, ?_⟩
  rintro (_ | place') delay' text' ⟨key, hplace'⟩
  · cases hplace'
    exact Or.inl (hlater text' rfl)
  · have hle := hfirst place' delay' text' ⟨key, hplace'⟩
    omega

/-- A failure is the first if none of those after it comes before it. -/
theorem isFirstFailure_cons {key : κ}
    (h : ∀ place delay' text', FailsAt answers place delay' text' → delay ≤ delay') :
    IsFirstFailure ((key, ⟨delay, .error text⟩) :: answers) delay text := by
  refine ⟨0, ⟨key, rfl⟩, ?_⟩
  rintro (_ | place') delay' text' ⟨key', hplace'⟩
  · cases hplace'
    exact Or.inr ⟨rfl, Nat.le_refl 0⟩
  · have hle := h place' delay' text' ⟨key', hplace'⟩
    omega

theorem allSucceed_of_firstFailure_eq_none (h : firstFailure answers = none) :
    ∃ values, AllSucceed answers values := by
  induction answers with
  | nil => exact ⟨[], .nil⟩
  | cons first answers ih =>
      obtain ⟨key, delay, result⟩ := first
      unfold firstFailure at h
      cases result with
      | error text =>
          cases hrest : firstFailure answers with
          | none =>
              rw [hrest] at h
              cases h
          | some found =>
              rw [hrest] at h
              cases h
      | ok value =>
          obtain ⟨values, hvalues⟩ := ih h
          exact ⟨(key, value) :: values, .cons ⟨rfl, rfl⟩ hvalues⟩

theorem isFirstFailure_of_firstFailure (h : firstFailure answers = some (delay, text)) :
    IsFirstFailure answers delay text := by
  induction answers generalizing delay text with
  | nil => cases h
  | cons first answers ih =>
      obtain ⟨key, time, result⟩ := first
      unfold firstFailure at h
      cases result with
      | ok value =>
          refine (ih h).cons ?_
          intro text' htext'
          cases htext'
      | error own =>
          cases hrest : firstFailure answers with
          | none =>
              rw [hrest] at h
              cases h
              obtain ⟨_, hall⟩ := allSucceed_of_firstFailure_eq_none hrest
              exact isFirstFailure_cons fun _ _ _ hfails => absurd hfails hall.not_failsAt
          | some found =>
              obtain ⟨earliest, other⟩ := found
              rw [hrest] at h
              have hother := ih hrest
              by_cases hless : earliest < time
              · cases (if_pos hless).symm.trans (Option.some.inj h)
                exact hother.cons fun _ _ => hless
              · cases (if_neg hless).symm.trans (Option.some.inj h)
                obtain ⟨_, -, hfirst⟩ := hother
                exact isFirstFailure_cons fun _ _ _ hfails => by
                  have hle := hfirst _ _ _ hfails
                  omega

theorem foldl_max_le_iff {times : List Nat} {start time : Nat} :
    times.foldl max start ≤ time ↔ start ≤ time ∧ ∀ t ∈ times, t ≤ time := by
  induction times generalizing start with
  | nil => simp
  | cons first times ih =>
      rw [List.foldl_cons, ih, Nat.max_le, List.forall_mem_cons, and_assoc]

theorem isLeast_lastEnd (answers : List (κ × Answer α)) :
    IsLeast {time | ∀ answer ∈ answers, answer.2.delay ≤ time} (lastEnd answers) := by
  have hle (time : Nat) : lastEnd answers ≤ time ↔ ∀ answer ∈ answers, answer.2.delay ≤ time := by
    rw [lastEnd, foldl_max_le_iff, List.forall_mem_map]
    exact and_iff_right (Nat.zero_le time)
  exact ⟨(hle _).mp (Nat.le_refl _), fun time htime => (hle time).mpr htime⟩

theorem runsAtOnce_watched : RunsAtOnce (watched (α := α) (κ := κ)) := by
  intro answers
  unfold watched
  cases hfirst : firstFailure answers with
  | some failure => exact .failure (isFirstFailure_of_firstFailure hfirst)
  | none =>
      obtain ⟨values, hall⟩ := allSucceed_of_firstFailure_eq_none hfirst
      rw [collect_eq_ok_iff.mpr hall]
      exact .success hall (isLeast_lastEnd answers)

/-- An answer that is there when a limit in milliseconds is reached is in time. -/
def IsInTime (ms? : Option Nat) (answer : Answer α) : Prop :=
  ∀ ms, ms? = some ms → answer.delay ≤ ms

/-- What becomes of a lookup under a limit. -/
inductive EndsWithin (ms? : Option Nat) (answer : Answer α) : Except LookupError α → Prop
  | late {ms : Nat} (hms : ms? = some ms) (hlate : ms < answer.delay) :
      EndsWithin ms? answer (.error (.timedOut (.ofMilliseconds ms)))
  | failed {text : String} (htime : answer.IsInTime ms?) (hresult : answer.result = .error text) :
      EndsWithin ms? answer (.error (.failed text))
  | found {value : α} (htime : answer.IsInTime ms?) (hresult : answer.result = .ok value) :
      EndsWithin ms? answer (.ok value)

theorem ticks_ofMilliseconds (ms : Nat) : (Duration.ofMilliseconds ms).ticks = ms := by
  show (ms * 1000000 + 999999) / 1000000 = ms
  omega

section

variable {limit? : Option Duration} {ms? : Option Nat} {answer : Answer α}

theorem IsInTime.within_eq (h : answer.IsInTime ms?) (hlimit : limit? = ms?.map .ofMilliseconds) :
    answer.within limit? = answer.result.mapError .failed := by
  apply within_eq_result
  rintro limit rfl
  obtain ⟨ms, hms, rfl⟩ := Option.map_eq_some_iff.mp hlimit.symm
  exact (h ms hms).trans_eq (ticks_ofMilliseconds ms).symm

theorem within_eq_iff_endsWithin (hlimit : limit? = ms?.map .ofMilliseconds)
    {outcome : Except LookupError α} :
    answer.within limit? = outcome ↔ EndsWithin ms? answer outcome := by
  constructor
  · rintro rfl
    by_cases htime : answer.IsInTime ms?
    · rw [htime.within_eq hlimit]
      cases hresult : answer.result with
      | error text => exact .failed htime hresult
      | ok value => exact .found htime hresult
    · unfold IsInTime at htime
      push Not at htime
      obtain ⟨ms, rfl, hlate⟩ := htime
      rw [hlimit, Option.map_some, within, if_pos ((ticks_ofMilliseconds ms).trans_lt hlate)]
      exact .late rfl hlate
  · rintro (⟨rfl, hlate⟩ | ⟨htime, hresult⟩ | ⟨htime, hresult⟩)
    · rw [hlimit]
      exact if_pos ((ticks_ofMilliseconds _).trans_lt hlate)
    · rw [htime.within_eq hlimit, hresult]
      rfl
    · rw [htime.within_eq hlimit, hresult]
      rfl

end

/-- A lookup that succeeds does so under any limit, or is too late for it. -/
theorem within_of_result_eq_ok {answer : Answer α} {value : α} (h : answer.result = .ok value)
    (limit? : Option Duration) : answer.within limit? = .ok value ∨
      ∃ limit, limit? = some limit ∧ answer.within limit? = .error (.timedOut limit) := by
  cases limit? with
  | none =>
      rw [within, h]
      exact Or.inl rfl
  | some limit =>
      unfold within
      dsimp only
      split
      · exact Or.inr ⟨limit, rfl, rfl⟩
      · rw [h]
        exact Or.inl rfl

end Answer

end TagQuery
