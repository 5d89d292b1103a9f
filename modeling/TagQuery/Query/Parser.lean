import TagQuery.Query
import TagQuery.Query.Error
import TagQuery.Token.Scanner

/-!
Parsing by recursive descent over tokens. The grammar is

    query       := term+
    term        := tag | '{' tag ('~' tag)+ '}' | WORD ':' [OPERATOR] WORD
    tag         := WORD | '-' WORD

and only the tokens before the first end of the query count. Each reader takes the tokens before it
and gives those after it; `finish` is the token that an error at the end of the query reports.
-/

namespace TagQuery

namespace Parser

variable (finish : Token)

/-- The next token, or the end of the query. -/
def peek (input : List Token) : Token :=
  input.headD finish

/-- Reads the tag after a dash. -/
def readNegated : List Token → Except ParseError (TagTerm × List Token)
  | [] => .error ⟨.negationWithoutTag, finish⟩
  | token :: rest =>
    match token.kind with
    | .word =>
      let next := peek finish rest
      if next.kind = .colon then .error ⟨.negatedField, next⟩ else .ok (⟨true, token⟩, rest)
    | .negation => .error ⟨.doubleNegation, token⟩
    | _ => .error ⟨.negationWithoutTag, token⟩

/-- Reads the operator of a field if there is one. -/
def readOperator (colon : Token) : List Token → Token × List Token
  | [] => (impliedOperator colon, [])
  | token :: rest =>
    if token.kind = .operator then (token, rest) else (impliedOperator colon, token :: rest)

/-- Reads what follows the name and the colon of a field. -/
def readField (name colon : Token) (input : List Token) :
    Except ParseError (FieldTerm × List Token) :=
  let (operator, rest) := readOperator colon input
  match rest with
  | [] => .error ⟨.missingFieldValue, finish⟩
  | value :: rest =>
    match value.kind with
    | .word => .ok (⟨name, colon, operator, value⟩, rest)
    | .negation => .error ⟨.negatedFieldValue, value⟩
    | _ => .error ⟨.missingFieldValue, value⟩

/-- Within a block, a negated field is reported as a field. -/
def inBlock (e : ParseError) : ParseError :=
  match e.fault with
  | .negatedField => ⟨.fieldInOr, e.token⟩
  | _ => e

/-- Reads an alternative of a block, the first one or a later one. -/
def readAlternative (isFirst : Bool) : List Token → Except ParseError (TagTerm × List Token)
  | [] => .error ⟨.unterminatedOr, finish⟩
  | token :: rest =>
    match token.kind with
    | .word =>
      if (peek finish rest).kind = .colon then .error ⟨.fieldInOr, token⟩
      else .ok (⟨false, token⟩, rest)
    | .negation => (readNegated finish rest).mapError inBlock
    | .orEnd => .error ⟨if isFirst then .emptyOr else .danglingContinuation, token⟩
    | .orContinue => .error ⟨.danglingContinuation, token⟩
    | .orStart => .error ⟨.nestedOr, token⟩
    | .colon => .error ⟨.fieldInOr, token⟩
    | _ => .error ⟨.unexpectedToken, token⟩

/-- Reads the separator after an alternative, and says whether another alternative follows. A block
cannot close after its first alternative. -/
def readSeparator (isFirst : Bool) : List Token → Except ParseError (Bool × List Token)
  | [] => .error ⟨.unterminatedOr, finish⟩
  | token :: rest =>
    match token.kind with
    | .orContinue => .ok (true, rest)
    | .orEnd => if isFirst then .error ⟨.singleTermOr, token⟩ else .ok (false, rest)
    | .orStart => .error ⟨.nestedOr, token⟩
    | _ => .error ⟨.missingContinuation, token⟩

theorem readNegated_length {input rest : List Token} {t : TagTerm}
    (h : readNegated finish input = .ok (t, rest)) : rest.length < input.length := by
  cases input with
  | nil => simp [readNegated] at h
  | cons token tail =>
    unfold readNegated at h
    dsimp only at h
    split at h
    · split at h <;> cases h
      simp
    · cases h
    · cases h

theorem readField_length {name colon : Token} {input rest : List Token} {t : FieldTerm}
    (h : readField finish name colon input = .ok (t, rest)) : rest.length < input.length := by
  have hoperator : (readOperator colon input).2.length ≤ input.length := by
    unfold readOperator
    split
    · simp
    · split <;> simp
  unfold readField at h
  dsimp only at h
  split at h
  · cases h
  next value tail htail =>
    rw [htail, List.length_cons] at hoperator
    split at h <;> cases h
    omega

theorem readAlternative_length {isFirst : Bool} {input rest : List Token} {t : TagTerm}
    (h : readAlternative finish isFirst input = .ok (t, rest)) : rest.length < input.length := by
  cases input with
  | nil => simp [readAlternative] at h
  | cons token tail =>
    unfold readAlternative at h
    dsimp only at h
    split at h
    · split at h <;> cases h
      simp
    · cases hneg : readNegated finish tail with
      | error e =>
        rw [hneg] at h
        cases h
      | ok r =>
        rw [hneg] at h
        cases h
        exact Nat.lt_succ_of_lt (readNegated_length finish hneg)
    all_goals cases h

theorem readSeparator_length {isFirst more : Bool} {input rest : List Token}
    (h : readSeparator finish isFirst input = .ok (more, rest)) : rest.length < input.length := by
  cases input with
  | nil => simp [readSeparator] at h
  | cons token tail =>
    unfold readSeparator at h
    dsimp only at h
    split at h
    · cases h
      simp
    · split at h <;> cases h
      simp
    all_goals cases h

/-- Reads the alternatives after the first `~` of a block, and the brace that closes it. -/
def readOthers (input : List Token) : Except ParseError ((TagTerm × List TagTerm) × List Token) :=
  match _ : readAlternative finish false input with
  | .error e => .error e
  | .ok (term, rest) =>
    match _ : readSeparator finish false rest with
    | .error e => .error e
    | .ok (false, rest) => .ok ((term, []), rest)
    | .ok (true, rest) =>
      match readOthers rest with
      | .error e => .error e
      | .ok ((next, others), rest) => .ok ((term, next :: others), rest)
termination_by input.length
decreasing_by
  exact Nat.lt_trans (readSeparator_length finish ‹_›) (readAlternative_length finish ‹_›)

/-- Reads what follows the brace that opens a block. -/
def readBlock (opening : Token) (input : List Token) : Except ParseError (Term × List Token) :=
  match readAlternative finish true input with
  | .error e => .error e
  | .ok (first, rest) =>
    match readSeparator finish true rest with
    | .error e => .error e
    | .ok (_, rest) =>
      match readOthers finish rest with
      | .error e => .error e
      | .ok ((second, others), rest) => .ok (.alternatives opening first second others, rest)

/-- Reads the term that begins with a token. -/
def readTerm (token : Token) (rest : List Token) : Except ParseError (Term × List Token) :=
  match token.kind with
  | .word =>
    match rest with
    | [] => .ok (.tag ⟨false, token⟩, [])
    | next :: tail =>
      if next.kind = .colon then
        (readField finish token next tail).map fun (field, rest) => (.field field, rest)
      else .ok (.tag ⟨false, token⟩, rest)
  | .negation => (readNegated finish rest).map fun (tag, rest) => (.tag tag, rest)
  | .orStart => readBlock finish token rest
  | .orEnd => .error ⟨.strayOrEnd, token⟩
  | .colon => .error ⟨.missingFieldName, token⟩
  | _ => .error ⟨.unexpectedToken, token⟩

theorem readOthers_length {input rest : List Token} {ts : TagTerm × List TagTerm}
    (h : readOthers finish input = .ok (ts, rest)) : rest.length < input.length := by
  fun_induction readOthers finish input generalizing ts with
  | case1 => cases h
  | case2 => cases h
  | case3 input term rest' halternative rest'' hseparator =>
    cases h
    exact Nat.lt_trans (readSeparator_length finish hseparator)
      (readAlternative_length finish halternative)
  | case4 => cases h
  | case5 input term rest' halternative rest'' hseparator next others rest''' hothers ih =>
    cases h
    exact Nat.lt_trans (ih hothers) (Nat.lt_trans (readSeparator_length finish hseparator)
      (readAlternative_length finish halternative))

theorem readBlock_length {opening : Token} {input rest : List Token} {t : Term}
    (h : readBlock finish opening input = .ok (t, rest)) : rest.length < input.length := by
  unfold readBlock at h
  split at h
  · cases h
  next halternative =>
    split at h
    · cases h
    next hseparator =>
      split at h
      · cases h
      next hothers =>
        cases h
        exact Nat.lt_trans (readOthers_length finish hothers)
          (Nat.lt_trans (readSeparator_length finish hseparator)
            (readAlternative_length finish halternative))

theorem readTerm_length {token : Token} {input rest : List Token} {t : Term}
    (h : readTerm finish token input = .ok (t, rest)) : rest.length ≤ input.length := by
  unfold readTerm at h
  split at h
  · split at h
    · cases h
      exact Nat.le_refl _
    next next tail =>
      split at h
      · cases hfield : readField finish token next tail with
        | error e => simp [hfield, Except.map] at h
        | ok r =>
          rw [hfield] at h
          cases h
          exact Nat.le_succ_of_le (Nat.le_of_lt (readField_length finish hfield))
      · cases h
        exact Nat.le_refl _
  · cases hneg : readNegated finish input with
    | error e => simp [hneg, Except.map] at h
    | ok r =>
      rw [hneg] at h
      cases h
      exact Nat.le_of_lt (readNegated_length finish hneg)
  · exact Nat.le_of_lt (readBlock_length finish h)
  all_goals cases h

/-- Reads terms to the end. -/
def readTerms : List Token → Except ParseError (List Term)
  | [] => .ok []
  | token :: input =>
    match _ : readTerm finish token input with
    | .error e => .error e
    | .ok (term, rest) =>
      match readTerms rest with
      | .error e => .error e
      | .ok terms => .ok (term :: terms)
termination_by input => input.length
decreasing_by exact Nat.lt_succ_of_le (readTerm_length finish ‹_›)

end Parser

/-- The first end of the query among tokens. Where there is none the query ends after the last. -/
def endToken (tokens : List Token) : Token :=
  match tokens.find? (·.kind = .endOfQuery) with
  | some token => token
  | none => Token.endAt ((tokens.getLast?.map Token.stop).getD 0)

/-- The tokens before the first end of the query. -/
def beforeEnd (tokens : List Token) : List Token :=
  tokens.takeWhile (·.kind ≠ .endOfQuery)

/-- The query that tokens spell, or why they spell none. -/
def Query.ofTokens (tokens : List Token) : Except ParseError Query :=
  let finish := endToken tokens
  match Parser.readTerms finish (beforeEnd tokens) with
  | .error e => .error e
  | .ok [] => .error ⟨.emptyQuery, finish⟩
  | .ok (first :: others) => .ok ⟨first, others⟩

/-- The query that a text spells, or why it spells none. -/
def Query.parse (text : String) : Except ParseError Query :=
  Query.ofTokens (tokenize text)

end TagQuery
