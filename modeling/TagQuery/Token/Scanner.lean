import TagQuery.Token
import TagQuery.Text.Utf8
import TagQuery.Text.WhiteSpace

/-!
Scanning: a query is cut into tokens, and every query has them. A dash is a symbol only where a
token begins, and an operator can only follow a colon, with or without white space between.
-/

namespace TagQuery

/-- The symbols that are tokens of their own where a token begins. -/
def symbolKind? : Char → Option TokenKind
  | '\x7b' => some .orStart
  | '~' => some .orContinue
  | '\x7d' => some .orEnd
  | '-' => some .negation
  | ':' => some .colon
  | _ => none

/-- The characters of which one may follow a colon as an operator. -/
def isOperatorChar (c : Char) : Bool :=
  c = '>' || c = '<' || c = '=' || c = '!'

/-- The characters that a word runs over. -/
def isWordChar (c : Char) : Bool :=
  !Text.isWhiteSpace c && c ≠ '\x7b' && c ≠ '~' && c ≠ '\x7d' && c ≠ ':'

/-- The start of a text as a token: its kind, its characters, and the characters after it. -/
structure Lexeme where
  kind : TokenKind
  text : List Char
  rest : List Char
  deriving Repr

/-- The token that begins with `c`. -/
def Lexeme.read (afterColon : Bool) (c : Char) (cs : List Char) : Lexeme :=
  if afterColon && isOperatorChar c then ⟨.operator, [c], cs⟩
  else
    match symbolKind? c with
    | some kind => ⟨kind, [c], cs⟩
    | none => ⟨.word, c :: cs.takeWhile isWordChar, cs.dropWhile isWordChar⟩

theorem Lexeme.text_append_rest (afterColon : Bool) (c : Char) (cs : List Char) :
    (read afterColon c cs).text ++ (read afterColon c cs).rest = c :: cs := by
  unfold read
  split
  · rfl
  · split <;> simp

theorem Lexeme.length_rest_le (afterColon : Bool) (c : Char) (cs : List Char) :
    (read afterColon c cs).rest.length ≤ cs.length := by
  unfold read
  split
  · exact Nat.le_refl _
  · split
    · exact Nat.le_refl _
    · exact (List.dropWhile_suffix _).length_le

/-- What is left of a query: its text, the offset at which that begins, whether the token before
it is a colon, and whether the end has been reported. -/
structure Scanner where
  rest : List Char
  position : Nat := 0
  afterColon : Bool := false
  finished : Bool := false
  deriving Repr

namespace Scanner

def ofQuery (query : String) : Scanner where
  rest := query.toList

/-- The next token. The end of the query is a token too, and nothing follows it. -/
def next (s : Scanner) : Option (Token × Scanner) :=
  if s.finished then none
  else
    let start := s.position + Text.utf8Length (s.rest.takeWhile Text.isWhiteSpace)
    match s.rest.dropWhile Text.isWhiteSpace with
    | [] => some (Token.endAt start, ⟨[], start, false, true⟩)
    | c :: cs =>
      let found := Lexeme.read s.afterColon c cs
      some (⟨found.kind, String.ofList found.text, start⟩,
        ⟨found.rest, start + Text.utf8Length found.text, found.kind = .colon, false⟩)

/-- How many tokens can follow at most. -/
def remaining (s : Scanner) : Nat :=
  if s.finished then 0 else s.rest.length + 1

theorem remaining_next_lt {s s' : Scanner} {t : Token} (h : s.next = some (t, s')) :
    s'.remaining < s.remaining := by
  unfold next at h
  split at h
  · cases h
  next hfinished =>
    have hrest := (List.dropWhile_suffix Text.isWhiteSpace (l := s.rest)).length_le
    split at h
    · cases h
      simp [remaining, hfinished]
    next c cs hcs =>
      cases h
      have hfound := Lexeme.length_rest_le s.afterColon c cs
      simp only [hcs, List.length_cons] at hrest
      simp only [remaining, hfinished, Bool.false_eq_true, if_false]
      omega

/-- The tokens that are left. -/
def tokens (s : Scanner) : List Token :=
  match _ : s.next with
  | none => []
  | some (t, s') => t :: s'.tokens
termination_by s.remaining
decreasing_by exact remaining_next_lt ‹_›

end Scanner

/-- The tokens of a query, the end of the query among them as the last. -/
def tokenize (query : String) : List Token :=
  (Scanner.ofQuery query).tokens

end TagQuery
