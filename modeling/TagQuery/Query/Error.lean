import TagQuery.Token

/-!
What makes a text no query, and the words for it.
-/

namespace TagQuery

/-- The ways in which tokens fail to be a query. -/
inductive Fault where
  | emptyQuery
  | unexpectedToken
  | unterminatedOr
  | emptyOr
  | singleTermOr
  | danglingContinuation
  | missingContinuation
  | strayOrEnd
  | nestedOr
  | fieldInOr
  | doubleNegation
  | negationWithoutTag
  | negatedField
  | missingFieldName
  | missingFieldValue
  | negatedFieldValue
  deriving DecidableEq, Repr

/-- A fault and the token at which it shows. -/
structure ParseError where
  fault : Fault
  token : Token
  deriving DecidableEq, Repr

def ParseError.message (e : ParseError) : String :=
  let found := e.token.describe
  let position := e.token.position
  match e.fault with
  | .emptyQuery => "query contains no tags or search terms"
  | .unexpectedToken => s!"unexpected {found}"
  | .unterminatedOr => "'\x7b' is never closed with '\x7d'"
  | .emptyOr => "'\x7b\x7d' contains no terms"
  | .singleTermOr => "'\x7b' ... '\x7d' needs at least two terms separated by '~'"
  | .danglingContinuation => s!"'~' is missing a term near {found}"
  | .missingContinuation => s!"terms inside '\x7b' ... '\x7d' must be separated by '~', found {found}"
  | .strayOrEnd => s!"'\x7d' without a matching '\x7b' at {position}"
  | .nestedOr => "'\x7b' ... '\x7d' blocks cannot be nested"
  | .fieldInOr => s!"search fields are not allowed inside '\x7b' ... '\x7d', found {found}"
  | .doubleNegation => s!"'-' must be followed by a tag, found another '-' at {position}"
  | .negationWithoutTag => s!"'-' must be followed by a tag, found {found}"
  | .negatedField => s!"search fields cannot be negated, found {found}"
  | .missingFieldName => s!"':' is missing its field name at {position}"
  | .missingFieldValue => s!"search field is missing its value, found {found}"
  | .negatedFieldValue => s!"search field values cannot be negated, found {found}"

end TagQuery
