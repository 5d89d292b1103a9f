import TagQuery.Token

/-!
Queries: one or more terms, all of which a post has to meet. A term is a tag, a negated tag, a
block of alternatives, or a search field with its value.
-/

namespace TagQuery

/-- A tag, or the absence of a tag. -/
structure TagTerm where
  negated : Bool
  word : Token
  deriving DecidableEq, Repr

/-- A search field. The operator is implied where the query does not write one. -/
structure FieldTerm where
  name : Token
  colon : Token
  operator : Token
  value : Token
  deriving DecidableEq, Repr

/-- A term of a query. A block has two alternatives at least, and these are tags or negated tags. -/
inductive Term where
  | tag (term : TagTerm)
  | alternatives (opening : Token) (first second : TagTerm) (others : List TagTerm)
  | field (term : FieldTerm)
  deriving DecidableEq, Repr

/-- A query has one term at least. -/
structure Query where
  first : Term
  others : List Term
  deriving DecidableEq, Repr

/-- The terms in the order of the query. -/
def Query.terms (q : Query) : List Term :=
  q.first :: q.others

/-- The token that a term is known by: the word of a tag, the brace that opens a block, the colon of
a field. -/
def Term.token : Term → Token
  | .tag t => t.word
  | .alternatives opening _ _ _ => opening
  | .field t => t.colon

/-- The tags and negated tags of a term. -/
def Term.tags : Term → List TagTerm
  | .tag t => [t]
  | .alternatives _ first second others => first :: second :: others
  | .field _ => []

/-- The operator of a field that is written without one. -/
def impliedOperator (colon : Token) : Token :=
  ⟨.implied, "=", colon.position⟩

end TagQuery
