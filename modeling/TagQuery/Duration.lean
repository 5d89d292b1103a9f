/-!
Spans of time, and their text: the largest unit that the span fills, with the rest as a decimal
fraction.
-/

namespace TagQuery

/-- A span of time in whole nanoseconds. -/
structure Duration where
  nanoseconds : Nat
  deriving DecidableEq, Repr

namespace Duration

def ofMilliseconds (ms : Nat) : Duration :=
  ⟨ms * 1000000⟩

def ofSeconds (secs nanos : Nat) : Duration :=
  ⟨secs * 1000000000 + nanos⟩

/-- The whole seconds of a span. -/
def seconds (d : Duration) : Nat :=
  d.nanoseconds / 1000000000

/-- The nanoseconds beyond the whole seconds. -/
def subsecond (d : Duration) : Nat :=
  d.nanoseconds % 1000000000

/-- The milliseconds of a clock that ticks once a millisecond: a span that ends between two ticks
ends at the later one. -/
def ticks (d : Duration) : Nat :=
  (d.nanoseconds + 999999) / 1000000

/-- A number below `10 ^ places` as a decimal fraction of that many places, without its trailing
zeros and without a point if nothing is left. -/
def fraction (places value : Nat) : String :=
  let digits := (Nat.repr value).toList
  let padded := List.replicate (places - digits.length) '0' ++ digits
  match (padded.reverse.dropWhile (· = '0')).reverse with
  | [] => ""
  | kept => String.ofList ('.' :: kept)

/-- The span in units of `10 ^ places` nanoseconds. -/
def inUnit (d : Duration) (places : Nat) (unit : String) : String :=
  let size := Nat.pow 10 places
  Nat.repr (d.nanoseconds / size) ++ fraction places (d.nanoseconds % size) ++ unit

/-- The span in the largest of the units s, ms, µs and ns that it fills. -/
def render (d : Duration) : String :=
  if 1000000000 ≤ d.nanoseconds then d.inUnit 9 "s"
  else if 1000000 ≤ d.nanoseconds then d.inUnit 6 "ms"
  else if 1000 ≤ d.nanoseconds then d.inUnit 3 "µs"
  else d.inUnit 0 "ns"

end Duration

end TagQuery
