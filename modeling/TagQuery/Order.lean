import TagQuery.Keyword

/-!
The orders in which posts can be listed.
-/

namespace TagQuery

inductive Direction where
  | ascending
  | descending
  deriving DecidableEq, Repr

def Direction.name : Direction → String
  | .ascending => "ASC"
  | .descending => "DESC"

structure Order where
  key : SortKey
  direction : Direction
  deriving DecidableEq, Repr

namespace Order

/-- The newest posts come first. -/
def newestFirst : Order :=
  ⟨.id, .descending⟩

/-- What is left of a text without its ending. -/
def withoutEnding? (ending text : List Char) : Option (List Char) :=
  if ending.isSuffixOf text then some (text.take (text.length - ending.length)) else none

/-- Reads a sort key, which one of the endings `_asc` and `_desc` may follow. A key without an ending
sorts downwards. -/
def ofText? (text : String) : Option Order :=
  let chars := text.toLower.toList
  let (key, direction) :=
    match withoutEnding? "_asc".toList chars with
    | some key => (key, Direction.ascending)
    | none => ((withoutEnding? "_desc".toList chars).getD chars, Direction.descending)
  (SortKey.ofKeyword? (String.ofList key)).map (⟨·, direction⟩)

def render (o : Order) : String :=
  s!"{o.key.keyword} {o.direction.name}"

end Order

end TagQuery
