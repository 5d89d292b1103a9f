import TagQuery.Duration
import TagQuery.Viewer

/-!
Lookups: what is asked of the tag service and of the preference service, how lookups that run at
once end, and how a limit cuts them off. Time is counted in milliseconds. A few lookups end with
whichever of them fails first. Of many the answers are taken in order, so that a failure is not
noticed before all earlier lookups have ended.
-/

namespace TagQuery

/-- What a lookup comes to: after how long, and a value or the text of a failure. -/
structure Answer (α : Type) where
  delay : Nat
  result : Except String α

/-- An answer that is there at once. -/
def Answer.now {α : Type} (value : α) : Answer α :=
  ⟨0, .ok value⟩

/-- The services that a compilation asks. A name that no tag has is answered with nothing. -/
structure Services where
  resolve : String → Answer (Option Id)
  visibility : Viewer → Answer Visibility

/-- Why a lookup gives no value. -/
inductive LookupError where
  | failed (text : String)
  | timedOut (limit : Duration)
  deriving DecidableEq, Repr

def LookupError.message : LookupError → String
  | .failed text => s!"lookup failed: {text}"
  | .timedOut limit => s!"lookup did not finish within {limit.render}"

namespace Answer

variable {α κ : Type}

/-- The failure that comes first in time, and of those that come together the first in the list. -/
def firstFailure : List (κ × Answer α) → Option (Nat × String)
  | [] => none
  | (_, answer) :: answers =>
    match answer.result, firstFailure answers with
    | .ok _, found => found
    | .error text, none => some (answer.delay, text)
    | .error text, some (delay, later) =>
      some (if delay < answer.delay then (delay, later) else (answer.delay, text))

/-- The values of the lookups, or the first failure in the list. -/
def collect (answers : List (κ × Answer α)) : Except String (List (κ × α)) :=
  answers.mapM fun (key, answer) => answer.result.map (key, ·)

/-- When the last of the lookups ends. -/
def lastEnd (answers : List (κ × Answer α)) : Nat :=
  (answers.map (·.2.delay)).foldl max 0

/-- Lookups that end with their first failure in time, or else when the last of them ends. -/
def watched (answers : List (κ × Answer α)) : Answer (List (κ × α)) :=
  match firstFailure answers with
  | some (delay, text) => ⟨delay, .error text⟩
  | none => ⟨lastEnd answers, collect answers⟩

/-- The answers that are waited for if they are taken in order: those up to the first failure. -/
def awaited : List (κ × Answer α) → List (κ × Answer α)
  | [] => []
  | answer :: answers =>
    match answer.2.result with
    | .ok _ => answer :: awaited answers
    | .error _ => [answer]

/-- How many answers can be taken at one moment. -/
def intake : Nat := 128

/-- When all answers have been taken. If too many of them come at the last moment, it is over before
they have been. Answers that are there at once are taken at once, however many they are. -/
def lastTaken (answers : List (κ × Answer α)) : Nat :=
  let last := lastEnd answers
  if 0 < last ∧ intake < answers.countP (·.2.delay = last) then last + 1 else last

/-- Lookups that end with their first failure in the list, or else when all of them have ended. -/
def inOrder (answers : List (κ × Answer α)) : Answer (List (κ × α)) :=
  ⟨lastTaken (awaited answers), collect (awaited answers)⟩

/-- How many lookups can be watched for a failure. -/
def watchable : Nat := 30

/-- Lookups that run at once. -/
def together (answers : List (κ × Answer α)) : Answer (List (κ × α)) :=
  if answers.length ≤ watchable then watched answers else inOrder answers

/-- The outcome of a lookup under a limit. A lookup that ends when the limit is reached is in time. -/
def within (limit : Option Duration) (answer : Answer α) : Except LookupError α :=
  match limit with
  | none => answer.result.mapError .failed
  | some limit =>
    if limit.ticks < answer.delay then .error (.timedOut limit)
    else answer.result.mapError .failed

end Answer

end TagQuery
