/-!
Who asks, and what is hidden from whom.
-/

namespace TagQuery

/-- The id of a tag, of an account, of a post or of a pool. -/
abbrev Id := UInt64

/-- Whom a query runs for. -/
inductive Viewer where
  | anonymous
  | user (id : Id)
  deriving DecidableEq, Repr

/-- The ratings that are hidden from a viewer unless a query names a rating. -/
structure Visibility where
  hidesNotSafe : Bool
  hidesExplicit : Bool
  deriving DecidableEq, Repr

def Visibility.hideAll : Visibility :=
  ⟨true, true⟩

end TagQuery
