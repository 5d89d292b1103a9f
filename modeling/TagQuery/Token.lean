/-!
Tokens of the query language: their kinds, and how an error message names them.
-/

namespace TagQuery

/-- The kinds of tokens. An implied token stands for something that the query does not spell out. -/
inductive TokenKind where
  | word
  | orStart
  | orContinue
  | orEnd
  | negation
  | colon
  | operator
  | endOfQuery
  | implied
  deriving DecidableEq, Repr

def TokenKind.name : TokenKind → String
  | .word => "WORD"
  | .orStart => "OR_START"
  | .orContinue => "OR_CONTINUE"
  | .orEnd => "OR_END"
  | .negation => "NOT"
  | .colon => "META"
  | .operator => "OPERATOR"
  | .endOfQuery => "END"
  | .implied => "DEFAULT"

/-- A token with its text and the byte offset at which it stands in the query. An implied token
stands where the construct begins that it belongs to. -/
structure Token where
  kind : TokenKind
  value : String
  position : Nat
  deriving DecidableEq, Repr

namespace Token

/-- The end of the query. -/
def endAt (position : Nat) : Token :=
  ⟨.endOfQuery, "", position⟩

/-- The byte offset just after a token. -/
def stop (t : Token) : Nat :=
  t.position + t.value.utf8ByteSize

/-- How a message names a token. -/
def describe (t : Token) : String :=
  match t.kind with
  | .endOfQuery => "end of query"
  | kind => s!"{kind.name} '{t.value}' at {t.position}"

end Token

end TagQuery
