import TagQuery.Proofs.Grammar

/-!
Which tokens a query can begin with. A place says what has been read of a query as far as that
matters for what can follow, and each token leads from a place to the next one or nowhere. From
every place a query can still be completed, and the places at which it may end are those that the
queries of the grammar lead to.
-/

namespace TagQuery.Grammar

/-- Some query begins with the tokens. -/
def Viable (tokens : List Token) : Prop :=
  ∃ rest, Derives query (tokens ++ rest)

/-- A place within a query. A term or an alternative is due as the first one or as a later one, and
a separator is due after the first alternative or after a later one. -/
inductive Place where
  | term (isFirst : Bool)
  | afterWord
  | afterDash
  | afterColon
  | afterOperator
  | alternative (isFirst : Bool)
  | afterDashInBlock (isFirst : Bool)
  | separator (isFirst : Bool)

namespace Place

/-- The place after the first token of a term. -/
def beginTerm : TokenKind → Option Place
  | .word => some .afterWord
  | .negation => some .afterDash
  | .orStart => some (.alternative true)
  | _ => none

/-- The place after a token of a kind, if such a token can follow. -/
def next : Place → TokenKind → Option Place
  | .term _, kind => beginTerm kind
  | .afterWord, .colon => some .afterColon
  | .afterWord, kind => beginTerm kind
  | .afterDash, .word => some (.term false)
  | .afterColon, .operator => some .afterOperator
  | .afterColon, .word => some (.term false)
  | .afterOperator, .word => some (.term false)
  | .alternative isFirst, .word => some (.separator isFirst)
  | .alternative isFirst, .negation => some (.afterDashInBlock isFirst)
  | .afterDashInBlock isFirst, .word => some (.separator isFirst)
  | .separator _, .orContinue => some (.alternative false)
  | .separator false, .orEnd => some (.term false)
  | _, _ => none

/-- A query can end here. -/
def IsEnd : Place → Prop
  | .term isFirst => isFirst = false
  | .afterWord => True
  | _ => False

/-- The place that tokens lead to. -/
def follow (place : Place) : List Token → Option Place
  | [] => some place
  | token :: tokens => (place.next token.kind).bind (follow · tokens)

theorem follow_append (place : Place) (front back : List Token) :
    place.follow (front ++ back) = (place.follow front).bind (follow · back) := by
  induction front generalizing place with
  | nil => rfl
  | cons token front ih =>
      cases hnext : place.next token.kind with
      | none => simp only [List.cons_append, follow, hnext, Option.bind_none]
      | some place' => simp only [List.cons_append, follow, hnext, Option.bind_some, ih]

theorem follow_leaf {kind : TokenKind} (place : Place) (leaf : Leaf kind) (tokens : List Token) :
    place.follow (leaf.val :: tokens) = (place.next kind).bind (follow · tokens) := by
  rw [follow, leaf.property]

/-- A word that ends the tokens before may be a tag, so that all that can follow a term can follow
it, and a colon besides. -/
theorem next_afterWord {kind : TokenKind} (hcolon : kind ≠ .colon) (isFirst : Bool) :
    Place.afterWord.next kind = (Place.term isFirst).next kind := by
  cases kind with
  | colon => exact absurd rfl hcolon
  | _ => rfl

theorem next_afterColon {kind : TokenKind} (hoperator : kind ≠ .operator) (hword : kind ≠ .word) :
    Place.afterColon.next kind = none := by
  cases kind with
  | operator => exact absurd rfl hoperator
  | word => exact absurd rfl hword
  | _ => rfl

theorem next_afterOperator {kind : TokenKind} (hword : kind ≠ .word) :
    Place.afterOperator.next kind = none := by
  cases kind with
  | word => exact absurd rfl hword
  | _ => rfl

theorem follow_afterWord {token : Token} {tokens : List Token} (hcolon : token.kind ≠ .colon)
    (isFirst : Bool) :
    Place.afterWord.follow (token :: tokens) = (Place.term isFirst).follow (token :: tokens) := by
  rw [follow, follow, next_afterWord hcolon isFirst]

end Place

open Place

theorem TagDerivation.follow_alternative (d : TagDerivation) (isFirst : Bool) :
    (Place.alternative isFirst).follow d.leaves = some (.separator isFirst) := by
  cases d with
  | word w => exact follow_leaf _ w []
  | negated dash w => exact (follow_leaf _ dash [w.val]).trans (follow_leaf _ w [])

theorem NextDerivation.follow_separator (next : NextDerivation) (isFirst : Bool) :
    (Place.separator isFirst).follow next.leaves = some (.separator false) :=
  (follow_leaf _ next.1 _).trans (next.2.follow_alternative false)

theorem follow_nextDerivations (next : NextDerivation) (others : List NextDerivation)
    (isFirst : Bool) :
    (Place.separator isFirst).follow ((next :: others).flatMap NextDerivation.leaves) =
      some (.separator false) := by
  rw [List.flatMap_cons, follow_append, next.follow_separator, Option.bind_some]
  induction others with
  | nil => rfl
  | cons other others ih =>
      rw [List.flatMap_cons, follow_append, other.follow_separator, Option.bind_some, ih]

/-- The place after a term. -/
def TermDerivation.place : TermDerivation → Place
  | .tag (.word _) => .afterWord
  | _ => .term false

theorem TermDerivation.isEnd_place (d : TermDerivation) : d.place.IsEnd := by
  match d with
  | .tag (.word _) => trivial
  | .tag (.negated _ _) | .block .. | .field .. => rfl

theorem TermDerivation.follow_term (d : TermDerivation) (isFirst : Bool) :
    (Place.term isFirst).follow d.leaves = some d.place := by
  match d with
  | .tag (.word w) => exact follow_leaf _ w []
  | .tag (.negated dash w) => exact (follow_leaf _ dash [w.val]).trans (follow_leaf _ w [])
  | .block opening first second others closing =>
      rw [leaves, follow_leaf]
      show (Place.alternative true).follow _ = _
      rw [follow_append, follow_append, first.follow_alternative, Option.bind_some,
        follow_nextDerivations, Option.bind_some]
      exact follow_leaf _ closing []
  | .field name colon operator? value =>
      rw [leaves, follow_leaf]
      refine (follow_leaf .afterWord colon _).trans ?_
      cases operator? with
      | none => exact follow_leaf .afterColon value []
      | some operator =>
          exact (follow_leaf .afterColon operator [value.val]).trans (follow_leaf _ value [])

theorem TermDerivation.follow_place (d d' : TermDerivation) :
    d.place.follow d'.leaves = some d'.place := by
  match d with
  | .tag (.negated _ _) | .block .. | .field .. => exact d'.follow_term false
  | .tag (.word _) =>
      have hterm := d'.follow_term false
      have hcolon := d'.noColon_leaves []
      rw [List.append_nil] at hcolon
      cases hleaves : d'.leaves with
      | nil => exact absurd hleaves (by simpa using d'.leaves_append_ne_nil [])
      | cons token tokens =>
          rw [hleaves] at hterm hcolon
          exact (follow_afterWord (noColon_cons.mp hcolon) false).trans hterm

/-- Terms lead from the end of a term to that of the last of them. -/
theorem follow_terms (d : TermDerivation) (ds : List TermDerivation) :
    ∃ last : TermDerivation,
      d.place.follow (ds.flatMap TermDerivation.leaves) = some last.place := by
  induction ds generalizing d with
  | nil => exact ⟨d, rfl⟩
  | cons d' ds ih =>
      obtain ⟨last, hlast⟩ := ih d'
      refine ⟨last, ?_⟩
      rw [List.flatMap_cons, follow_append, d.follow_place, Option.bind_some, hlast]

/-- The tokens of a query lead to a place at which it can end. -/
theorem exists_follow_of_derives {tokens : List Token} (h : Derives query tokens) :
    ∃ place, (Place.term true).follow tokens = some place ∧ place.IsEnd := by
  obtain ⟨⟨first, others⟩, rfl⟩ := (derives_query tokens).mp h
  obtain ⟨last, hlast⟩ := follow_terms first others
  refine ⟨last.place, ?_, last.isEnd_place⟩
  rw [QueryDerivation.leaves, QueryDerivation.terms, List.flatMap_cons, follow_append,
    first.follow_term, Option.bind_some, hlast]

/-- The kinds of some tokens with which a query can end from a place. -/
def Place.completion : Place → List TokenKind
  | .term _ | .afterDash | .afterColon | .afterOperator => [.word]
  | .afterWord => []
  | .alternative true | .afterDashInBlock true => [.word, .orContinue, .word, .orEnd]
  | .alternative false | .afterDashInBlock false => [.word, .orEnd]
  | .separator true => [.orContinue, .word, .orEnd]
  | .separator false => [.orEnd]

theorem Place.exists_follow_isEnd (place : Place) :
    ∃ tokens place', place.follow tokens = some place' ∧ place'.IsEnd := by
  refine ⟨place.completion.map (⟨·, "", 0⟩), ?_⟩
  match place with
  | .term _ | .afterWord => exact ⟨_, rfl, trivial⟩
  | .afterDash | .afterColon | .afterOperator => exact ⟨_, rfl, rfl⟩
  | .alternative true | .alternative false => exact ⟨_, rfl, rfl⟩
  | .afterDashInBlock true | .afterDashInBlock false => exact ⟨_, rfl, rfl⟩
  | .separator true | .separator false => exact ⟨_, rfl, rfl⟩

end TagQuery.Grammar
