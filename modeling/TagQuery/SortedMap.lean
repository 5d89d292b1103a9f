/-!
Finite maps as lists of entries in ascending order of their keys, each key at most once. Two maps
with the same entries are equal, so an order of insertion leaves no trace.
-/

namespace TagQuery

instance transStringLt : Trans (α := String) (· < ·) (· < ·) (· < ·) :=
  ⟨String.lt_trans⟩

instance transUInt64Lt : Trans (α := UInt64) (· < ·) (· < ·) (· < ·) :=
  ⟨UInt64.lt_trans⟩

/-- Entries in strictly ascending order of their keys. -/
def Ascending {κ ν : Type} [LT κ] (entries : List (κ × ν)) : Prop :=
  entries.Pairwise fun a b => a.1 < b.1

/-- A finite map from keys to values. -/
structure SortedMap (κ ν : Type) [LT κ] where
  entries : List (κ × ν)
  ascending : Ascending entries

namespace SortedMap

variable {κ ν : Type} [LT κ]

instance : EmptyCollection (SortedMap κ ν) :=
  ⟨⟨[], List.Pairwise.nil⟩⟩

instance [Repr κ] [Repr ν] : Repr (SortedMap κ ν) :=
  ⟨fun m => reprPrec m.entries⟩

theorem ext_entries {m m' : SortedMap κ ν} (h : m.entries = m'.entries) : m = m' := by
  cases m
  cases m'
  cases h
  rfl

instance [DecidableEq κ] [DecidableEq ν] : DecidableEq (SortedMap κ ν) :=
  fun m m' => decidable_of_iff (m.entries = m'.entries) ⟨ext_entries, fun h => h ▸ rfl⟩

def size (m : SortedMap κ ν) : Nat :=
  m.entries.length

def keys (m : SortedMap κ ν) : List κ :=
  m.entries.map Prod.fst

section Lookup

variable [BEq κ]

/-- The value of a key. -/
def get? (m : SortedMap κ ν) (key : κ) : Option ν :=
  m.entries.lookup key

def contains (m : SortedMap κ ν) (key : κ) : Bool :=
  (m.get? key).isSome

/-- The map without a key. -/
def erase (m : SortedMap κ ν) (key : κ) : SortedMap κ ν :=
  ⟨m.entries.filter (·.1 != key), m.ascending.filter _⟩

end Lookup

section Insert

variable [DecidableLT κ]

/-- Puts an entry where its key belongs, in the place of an entry with that key. -/
def insertEntry (key : κ) (value : ν) : List (κ × ν) → List (κ × ν)
  | [] => [(key, value)]
  | (k, v) :: entries =>
    if key < k then (key, value) :: (k, v) :: entries
    else if k < key then (k, v) :: insertEntry key value entries
    else (k, value) :: entries

theorem fst_of_mem_insertEntry {key : κ} {value : ν} {entries : List (κ × ν)} {entry : κ × ν}
    (h : entry ∈ insertEntry key value entries) :
    entry.1 = key ∨ entry.1 ∈ entries.map Prod.fst := by
  induction entries with
  | nil => simp_all [insertEntry]
  | cons first entries ih =>
    unfold insertEntry at h
    split at h
    · simp only [List.mem_cons] at h
      rcases h with rfl | rfl | h
      · exact Or.inl rfl
      · simp
      · exact Or.inr (List.mem_cons_of_mem _ (List.mem_map_of_mem h))
    · split at h
      · rcases List.mem_cons.1 h with rfl | h
        · simp
        · exact (ih h).imp id (List.mem_cons_of_mem _)
      · rcases List.mem_cons.1 h with rfl | h
        · simp
        · exact Or.inr (List.mem_cons_of_mem _ (List.mem_map_of_mem h))

variable [Trans (α := κ) (· < ·) (· < ·) (· < ·)]

theorem ascending_insertEntry (key : κ) (value : ν) {entries : List (κ × ν)}
    (h : Ascending entries) : Ascending (insertEntry key value entries) := by
  induction entries with
  | nil => exact List.pairwise_singleton _ _
  | cons first entries ih =>
    have ⟨hfirst, hrest⟩ := List.pairwise_cons.1 h
    unfold insertEntry
    split
    next hlt =>
      refine List.pairwise_cons.2 ⟨fun entry hentry => ?_, h⟩
      rcases List.mem_cons.1 hentry with rfl | hentry
      · exact hlt
      · exact Trans.trans hlt (hfirst entry hentry)
    · split
      next hlt =>
        refine List.pairwise_cons.2 ⟨fun entry hentry => ?_, ih hrest⟩
        rcases fst_of_mem_insertEntry hentry with heq | hmem
        · exact heq ▸ hlt
        · obtain ⟨other, hother, heq⟩ := List.mem_map.1 hmem
          exact heq ▸ hfirst other hother
      · exact List.pairwise_cons.2 ⟨hfirst, hrest⟩

/-- The map with an entry, which takes the place of an earlier one with its key. -/
def insert (m : SortedMap κ ν) (key : κ) (value : ν) : SortedMap κ ν :=
  ⟨insertEntry key value m.entries, ascending_insertEntry key value m.ascending⟩

/-- The map of a list of entries, of which a later one takes the place of an earlier one. -/
def ofList (entries : List (κ × ν)) : SortedMap κ ν :=
  entries.foldl (fun m entry => m.insert entry.1 entry.2) ∅

end Insert

end SortedMap

end TagQuery
