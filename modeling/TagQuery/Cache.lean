import TagQuery.Viewer

/-!
A bounded map from query texts and viewers to compiled queries. What no longer fits is dropped, the
oldest first.
-/

namespace TagQuery

/-- A query text, as it is written, and the viewer that it runs for. -/
structure CacheKey where
  query : String
  viewer : Viewer
  deriving DecidableEq, Repr

/-- How many entries a cache of some capacity holds. There is always room for one. -/
def cacheBound (capacity : Nat) : Nat :=
  max capacity 1

/-- The entries of a cache, the newest first. -/
structure Cache (α : Type) where
  capacity : Nat
  entries : List (CacheKey × α)
  length_le : entries.length ≤ cacheBound capacity

namespace Cache

variable {α : Type}

/-- The capacity of a cache for which none is given. -/
def defaultCapacity : Nat := 4096

def empty (capacity : Nat) : Cache α :=
  ⟨capacity, [], Nat.zero_le _⟩

def size (c : Cache α) : Nat :=
  c.entries.length

def get? (c : Cache α) (key : CacheKey) : Option α :=
  c.entries.lookup key

/-- The cache with an entry, which takes the place of an earlier one for its key. -/
def insert (c : Cache α) (key : CacheKey) (value : α) : Cache α where
  capacity := c.capacity
  entries := ((key, value) :: c.entries.filter (·.1 ≠ key)).take (cacheBound c.capacity)
  length_le := by simpa only [List.length_take] using Nat.min_le_left _ _

/-- The cache without its entries. -/
def clear (c : Cache α) : Cache α :=
  empty c.capacity

end Cache

end TagQuery
