import TagQuery.Order
import TagQuery.Predicate
import TagQuery.Text.Quoted
import TagQuery.Viewer

/-!
Compiled queries: a condition over posts with its parameters, and the order of the posts.
-/

namespace TagQuery

/-- The value of a parameter. -/
inductive Param where
  | id (value : Id)
  | text (value : String)
  deriving DecidableEq, Repr

def Param.render : Param → String
  | .id value => Nat.repr value.toNat
  | .text value => Text.quoted value

/-- What a query compiles to. A query constrains the rating, or the status, if it has a term for
that field. -/
structure Compiled where
  predicate : Predicate
  params : List Param
  order : Order
  constrainsRating : Bool
  constrainsStatus : Bool
  deriving Repr

/-- The lines that give the parameters, of which the first has a given number. -/
def Param.lines (number : Nat) : List Param → List String
  | [] => []
  | param :: params => s!"${number} = {param.render}\n" :: lines (number + 1) params

/-- The condition, the order and the parameters, each on lines of its own. -/
def Compiled.render (c : Compiled) : String :=
  s!"WHERE {c.predicate.render}\nORDER BY {c.order.render}\n" ++ String.join (Param.lines 1 c.params)

end TagQuery
