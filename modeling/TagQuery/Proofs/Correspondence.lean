import TagQuery.Compile
import TagQuery.Proofs.Parsing

/-!
Parsing goes by the kinds of tokens alone. Where tokens are related to others of the same kinds, what
each reader gives for them is related likewise. It makes no difference that the others go on, as long
as the reader does not come to the end of its tokens.
-/

namespace TagQuery

section

variable (R : Token → Token → Prop)

structure TagTerm.Like (t t' : TagTerm) : Prop where
  negated_eq : t.negated = t'.negated
  word : R t.word t'.word

/-- Two fields that are alike but for their tokens. An operator may be implied in both. -/
structure FieldTerm.Like (t t' : FieldTerm) : Prop where
  name : R t.name t'.name
  colon : R t.colon t'.colon
  operator : R t.operator t'.operator ∨
    t.operator = impliedOperator t.colon ∧ t'.operator = impliedOperator t'.colon
  value : R t.value t'.value

inductive Term.Like : Term → Term → Prop
  | tag {t t' : TagTerm} (h : t.Like R t') : Term.Like (.tag t) (.tag t')
  | alternatives {opening opening' : Token} {first second first' second' : TagTerm}
      {others others' : List TagTerm} (hopening : R opening opening') (hfirst : first.Like R first')
      (hsecond : second.Like R second') (hothers : List.Forall₂ (TagTerm.Like R) others others') :
      Term.Like (.alternatives opening first second others)
        (.alternatives opening' first' second' others')
  | field {t t' : FieldTerm} (h : t.Like R t') : Term.Like (.field t) (.field t')

/-- Two queries that are alike but for their tokens, which are related each to each. -/
def Query.Like (q q' : Query) : Prop :=
  List.Forall₂ (Term.Like R) q.terms q'.terms

/-- Two trees that are alike but for their tokens, which are related each to each. -/
inductive Node.Like : Node → Node → Prop
  | mk {kind : NodeKind} {token token' : Token} {children children' : List Node}
      (htoken : R token token') (hchildren : List.Forall₂ Node.Like children children') :
      Node.Like ⟨kind, token, children⟩ ⟨kind, token', children'⟩

end

/-- What is said of tokens that are written is also said of those that are implied where they
stand. -/
structure Implies (R S : Token → Token → Prop) : Prop where
  written : ∀ {t t' : Token}, R t t' → S t t'
  implied : ∀ {t t' : Token} (value : String), R t t' →
    S ⟨.implied, value, t.position⟩ ⟨.implied, value, t'.position⟩

section

variable {R S : Token → Token → Prop} (hRS : Implies R S)

include hRS

theorem TagTerm.Like.node {t t' : TagTerm} (h : t.Like R t') : t.node.Like S t'.node := by
  obtain ⟨negated, word⟩ := t
  obtain ⟨negated', word'⟩ := t'
  obtain ⟨rfl, hword⟩ := h
  exact .mk (hRS.written hword) .nil

theorem FieldTerm.Like.node {t t' : FieldTerm} (h : t.Like R t') : t.node.Like S t'.node := by
  have hoperator : S t.operator t'.operator := by
    rcases h.operator with hwritten | ⟨himplied, himplied'⟩
    · exact hRS.written hwritten
    · rw [himplied, himplied']
      exact hRS.implied "=" h.colon
  exact .mk (hRS.written h.colon) (.cons (.mk (hRS.written h.name) .nil)
    (.cons (.mk hoperator .nil) (.cons (.mk (hRS.written h.value) .nil) .nil)))

omit hRS in
theorem forall₂_map_node {α : Type} (node : α → Node) {V : α → α → Prop}
    (hnode : ∀ x x' : α, V x x' → (node x).Like S (node x')) {xs xs' : List α}
    (h : List.Forall₂ V xs xs') : List.Forall₂ (Node.Like S) (xs.map node) (xs'.map node) :=
  List.forall₂_map_left_iff.mpr (List.forall₂_map_right_iff.mpr (h.imp hnode))

theorem Term.Like.node {t t' : Term} (h : t.Like R t') : t.node.Like S t'.node := by
  cases h with
  | tag h => exact h.node hRS
  | alternatives hopening hfirst hsecond hothers =>
      exact .mk (hRS.written hopening) (forall₂_map_node TagTerm.node (fun _ _ h => h.node hRS)
        (.cons hfirst (.cons hsecond hothers)))
  | field h => exact h.node hRS

omit hRS in
theorem Term.Like.token {t t' : Term} (h : t.Like R t') : R t.token t'.token := by
  cases h with
  | tag h => exact h.word
  | alternatives hopening _ _ _ => exact hopening
  | field h => exact h.colon

theorem Query.Like.tree {q q' : Query} (h : q.Like R q') : q.tree.Like S q'.tree := by
  obtain ⟨first, others⟩ := q
  obtain ⟨first', others'⟩ := q'
  obtain ⟨hfirst, hothers⟩ := List.forall₂_cons.mp h
  cases hothers with
  | nil => exact hfirst.node hRS
  | cons hsecond hothers =>
      exact .mk (hRS.implied "" hfirst.token)
        (forall₂_map_node Term.node (fun _ _ h => h.node hRS) h)

end

namespace Parser

/-- A reader has come to the end of its tokens. It has read them all, or fails there. -/
def ReachesEnd {α : Type} : Except ParseError (α × List Token) → Prop
  | .ok (_, rest) => rest = []
  | .error e => e.token.kind = .endOfQuery

/-- Results that are related, and so are the tokens that are left, behind which the others go on. -/
inductive Agree {α β : Type} (R : Token → Token → Prop) (more : List Token) (V : α → β → Prop) :
    Except ParseError (α × List Token) → Except ParseError (β × List Token) → Prop
  | ok {x : α} {y : β} {rest rest' : List Token} (hvalue : V x y) (hrest : List.Forall₂ R rest rest') :
      Agree R more V (.ok (x, rest)) (.ok (y, rest' ++ more))
  | error {fault : Fault} {token token' : Token} (htoken : R token token') :
      Agree R more V (.error ⟨fault, token⟩) (.error ⟨fault, token'⟩)

theorem Agree.of_ok {α β : Type} {R : Token → Token → Prop} {more rest rest' : List Token}
    {V : α → β → Prop} {x : α} {y : β} (h : Agree R more V (.ok (x, rest)) (.ok (y, rest'))) :
    V x y := by
  generalize hfound : (Except.ok (y, rest') : Except ParseError (β × List Token)) = found at h
  cases h with
  | ok hvalue _ =>
      obtain rfl := (Prod.mk.inj (Except.ok.inj hfound)).1
      exact hvalue

/-- A result carries over to another where tokens go on, unless it is had at the end of tokens. -/
def CarriesOver {α β : Type} (R : Token → Token → Prop) (more : List Token) (V : α → β → Prop)
    (found : Except ParseError (α × List Token)) (found' : Except ParseError (β × List Token)) :
    Prop :=
  (ReachesEnd found → more = []) → Agree R more V found found'

section

variable {α β γ δ : Type} {R : Token → Token → Prop} {more : List Token} {V : α → β → Prop}
  {W : γ → δ → Prop} {found : Except ParseError (α × List Token)}
  {found' : Except ParseError (β × List Token)}

/-- A reader and one that goes on with what it leaves, which does not get beyond the end. -/
theorem CarriesOver.bind {f : α × List Token → Except ParseError (γ × List Token)}
    {f' : β × List Token → Except ParseError (δ × List Token)} (h : CarriesOver R more V found found')
    (hend : ∀ x, ReachesEnd (f (x, [])))
    (hf : ∀ x y rest rest', found = .ok (x, rest) → V x y → List.Forall₂ R rest rest' →
      CarriesOver R more W (f (x, rest)) (f' (y, rest' ++ more))) :
    CarriesOver R more W (found.bind f) (found'.bind f') := by
  intro hmore
  cases found with
  | error e =>
      cases h hmore with
      | error htoken => exact .error htoken
  | ok read =>
      obtain ⟨x, rest⟩ := read
      have hrest : rest = [] → more = [] := fun hnil => hmore (hnil ▸ hend x)
      cases h hrest with
      | ok hvalue htokens => exact hf x _ rest _ rfl hvalue htokens hmore

theorem CarriesOver.map (h : CarriesOver R more V found found') (f : α → γ) (f' : β → δ)
    (hf : ∀ {x y}, V x y → W (f x) (f' y)) :
    CarriesOver R more W (found.map fun (x, rest) => (f x, rest))
      (found'.map fun (y, rest) => (f' y, rest)) := by
  intro hmore
  cases found with
  | error e =>
      cases h hmore with
      | error htoken => exact .error htoken
  | ok read =>
      cases h hmore with
      | ok hvalue hrest => exact .ok (hf hvalue) hrest

theorem CarriesOver.mapError_inBlock (h : CarriesOver R more V found found') :
    CarriesOver R more V (found.mapError inBlock) (found'.mapError inBlock) := by
  intro hmore
  cases found with
  | error e =>
      have hend : ReachesEnd (.error e : Except ParseError (α × List Token)) → more = [] := by
        intro hkind
        refine hmore ?_
        show (inBlock e).token.kind = .endOfQuery
        unfold inBlock
        split <;> exact hkind
      cases h hend with
      | @error fault token token' htoken =>
          show Agree R more V (.error (inBlock ⟨fault, token⟩)) (.error (inBlock ⟨fault, token'⟩))
          cases fault <;> exact .error htoken
  | ok read =>
      cases h hmore with
      | ok hvalue hrest => exact .ok hvalue hrest

end

/-! ### Readers side by side -/

/-- Reads the value of a field. -/
def readValue (finish name colon operator : Token) :
    List Token → Except ParseError (FieldTerm × List Token)
  | [] => .error ⟨.missingFieldValue, finish⟩
  | value :: rest =>
    match value.kind with
    | .word => .ok (⟨name, colon, operator, value⟩, rest)
    | .negation => .error ⟨.negatedFieldValue, value⟩
    | _ => .error ⟨.missingFieldValue, value⟩

/-- What it takes for tokens to be read side by side with others that go on with more. -/
structure SideBySide (R : Token → Token → Prop) (more : List Token) (finish finish' : Token) :
    Prop where
  kind_eq : ∀ {t t' : Token}, R t t' → t.kind = t'.kind
  kind_finish : finish.kind = .endOfQuery
  finish : more = [] → R finish finish'

section

variable {R : Token → Token → Prop} {more input input' rest rest' : List Token}
  {finish finish' : Token} (h : SideBySide R more finish finish')

include h

theorem SideBySide.peek (hrest : List.Forall₂ R rest rest') (hmore : rest = [] → more = []) :
    R (peek finish rest) (peek finish' (rest' ++ more)) := by
  cases hrest with
  | nil =>
      obtain rfl := hmore rfl
      exact h.finish rfl
  | cons hnext _ => exact hnext

theorem SideBySide.peek_colon (hrest : List.Forall₂ R rest rest')
    (hcolon : (Parser.peek finish rest).kind = .colon) :
    R (Parser.peek finish rest) (Parser.peek finish' (rest' ++ more)) := by
  refine h.peek hrest ?_
  rintro rfl
  cases h.kind_finish.symm.trans hcolon

/-- At the end of the tokens nothing more follows, or else a reader that fails there is not bound. -/
theorem SideBySide.error_finish {α β : Type} {V : α → β → Prop} {fault : Fault}
    (reader : List Token → Except ParseError (β × List Token))
    (hreader : reader [] = .error ⟨fault, finish'⟩) :
    CarriesOver R more V (.error ⟨fault, finish⟩) (reader more) := by
  intro hmore
  obtain rfl := hmore h.kind_finish
  rw [hreader]
  exact .error (h.finish rfl)

/-- A word is read if no colon follows it. -/
theorem SideBySide.ite_colon {α β : Type} {V : α → β → Prop} {x : α} {y : β} {e e' : ParseError}
    (hrest : List.Forall₂ R rest rest') (hvalue : V x y)
    (herror : R (Parser.peek finish rest) (Parser.peek finish' (rest' ++ more)) →
      Agree R more V (.error e) (.error e')) :
    CarriesOver R more V
      (if (Parser.peek finish rest).kind = .colon then .error e else .ok (x, rest))
      (if (Parser.peek finish' (rest' ++ more)).kind = .colon then .error e'
        else .ok (y, rest' ++ more)) := by
  by_cases hcolon : (Parser.peek finish rest).kind = .colon
  · have hnext := h.peek_colon hrest hcolon
    rw [if_pos hcolon, if_pos ((h.kind_eq hnext).symm.trans hcolon)]
    exact fun _ => herror hnext
  · rw [if_neg hcolon]
    intro hmore
    have hnext := h.peek hrest hmore
    rw [if_neg (h.kind_eq hnext ▸ hcolon)]
    exact .ok hvalue hrest

theorem readNegated_carriesOver (hinput : List.Forall₂ R input input') :
    CarriesOver R more (TagTerm.Like R) (readNegated finish input)
      (readNegated finish' (input' ++ more)) := by
  cases hinput with
  | nil => exact h.error_finish (readNegated finish') rfl
  | @cons token token' rest rest' htoken hrest =>
      rw [List.cons_append]
      unfold readNegated
      dsimp only
      rw [← h.kind_eq htoken]
      split
      next => exact h.ite_colon hrest ⟨rfl, htoken⟩ .error
      next => exact fun _ => .error htoken
      next => exact fun _ => .error htoken

theorem readAlternative_carriesOver (isFirst : Bool) (hinput : List.Forall₂ R input input') :
    CarriesOver R more (TagTerm.Like R) (readAlternative finish isFirst input)
      (readAlternative finish' isFirst (input' ++ more)) := by
  cases hinput with
  | nil => exact h.error_finish (readAlternative finish' isFirst) rfl
  | @cons token token' rest rest' htoken hrest =>
      rw [List.cons_append]
      unfold readAlternative
      dsimp only
      rw [← h.kind_eq htoken]
      split
      next => exact h.ite_colon hrest ⟨rfl, htoken⟩ fun _ => .error htoken
      next => exact (readNegated_carriesOver h hrest).mapError_inBlock
      all_goals exact fun _ => .error htoken

theorem readSeparator_carriesOver (isFirst : Bool) (hinput : List.Forall₂ R input input') :
    CarriesOver R more (· = ·) (readSeparator finish isFirst input)
      (readSeparator finish' isFirst (input' ++ more)) := by
  cases hinput with
  | nil => exact h.error_finish (readSeparator finish' isFirst) rfl
  | @cons token token' rest rest' htoken hrest =>
      rw [List.cons_append]
      unfold readSeparator
      dsimp only
      rw [← h.kind_eq htoken]
      split
      next => exact fun _ => .ok rfl hrest
      next =>
        split
        next => exact fun _ => .error htoken
        next => exact fun _ => .ok rfl hrest
      all_goals exact fun _ => .error htoken

omit h in
theorem readField_eq (name colon : Token) (input : List Token) :
    readField finish name colon input =
      readValue finish name colon (readOperator colon input).1 (readOperator colon input).2 :=
  rfl

theorem readValue_carriesOver {name name' colon colon' operator operator' : Token}
    (hname : R name name') (hcolon : R colon colon')
    (hoperator : R operator operator' ∨
      operator = impliedOperator colon ∧ operator' = impliedOperator colon')
    (hinput : List.Forall₂ R input input') :
    CarriesOver R more (FieldTerm.Like R) (readValue finish name colon operator input)
      (readValue finish' name' colon' operator' (input' ++ more)) := by
  cases hinput with
  | nil => exact h.error_finish (readValue finish' name' colon' operator') rfl
  | @cons value value' rest rest' hvalue hrest =>
      rw [List.cons_append]
      unfold readValue
      dsimp only
      rw [← h.kind_eq hvalue]
      split
      next => exact fun _ => .ok ⟨hname, hcolon, hoperator, hvalue⟩ hrest
      next => exact fun _ => .error hvalue
      next => exact fun _ => .error hvalue

theorem readField_carriesOver {name name' colon colon' : Token} (hname : R name name')
    (hcolon : R colon colon') (hinput : List.Forall₂ R input input') :
    CarriesOver R more (FieldTerm.Like R) (readField finish name colon input)
      (readField finish' name' colon' (input' ++ more)) := by
  cases hinput with
  | nil => exact h.error_finish (readField finish' name' colon') rfl
  | @cons token token' rest rest' htoken hrest =>
      rw [List.cons_append, readField_eq, readField_eq, readOperator, readOperator,
        ← h.kind_eq htoken]
      split
      next => exact readValue_carriesOver h hname hcolon (.inl htoken) hrest
      next => exact readValue_carriesOver h hname hcolon (.inr ⟨rfl, rfl⟩) (.cons htoken hrest)

omit h in
theorem readOthers_eq (input : List Token) :
    readOthers finish input = (readAlternative finish false input).bind fun (term, rest) =>
      (readSeparator finish false rest).bind fun (another, rest) =>
        if another then
          (readOthers finish rest).map fun (later, rest) => ((term, later.1 :: later.2), rest)
        else .ok ((term, []), rest) := by
  rw [readOthers]
  cases readAlternative finish false input with
  | error e => rfl
  | ok found =>
      obtain ⟨term, rest⟩ := found
      simp only [Except.bind]
      cases readSeparator finish false rest with
      | error e => rfl
      | ok found =>
          obtain ⟨another, rest⟩ := found
          cases another with
          | false => rfl
          | true =>
              dsimp only [if_true]
              cases readOthers finish rest with
              | error e => rfl
              | ok found => rfl

omit h in
theorem readBlock_eq (opening : Token) (input : List Token) :
    readBlock finish opening input = (readAlternative finish true input).bind fun (first, rest) =>
      (readSeparator finish true rest).bind fun (_, rest) =>
        (readOthers finish rest).map fun (later, rest) =>
          (.alternatives opening first later.1 later.2, rest) := by
  rw [readBlock]
  cases readAlternative finish true input with
  | error e => rfl
  | ok found =>
      obtain ⟨first, rest⟩ := found
      simp only [Except.bind]
      cases readSeparator finish true rest with
      | error e => rfl
      | ok found =>
          dsimp only
          cases readOthers finish found.2 with
          | error e => rfl
          | ok found => rfl

/-- The later alternatives of a block that are alike, of which there is one at least. -/
def OthersLike (R : Token → Token → Prop) (others others' : TagTerm × List TagTerm) : Prop :=
  others.1.Like R others'.1 ∧ List.Forall₂ (TagTerm.Like R) others.2 others'.2

omit h in
theorem readOthers_nil : readOthers finish [] = .error ⟨.unterminatedOr, finish⟩ := by
  rw [readOthers_eq]
  rfl

theorem readOthers_carriesOver (hinput : List.Forall₂ R input input') :
    CarriesOver R more (OthersLike R) (readOthers finish input)
      (readOthers finish' (input' ++ more)) := by
  induction hlength : input.length using Nat.strong_induction_on generalizing input input' with
  | _ length ih =>
      rw [readOthers_eq, readOthers_eq]
      refine (readAlternative_carriesOver h false hinput).bind (fun _ => h.kind_finish) ?_
      intro term term' rest rest' hterm htermLike hrest
      refine (readSeparator_carriesOver h false hrest).bind ?_ ?_
      · intro another
        cases another with
        | false => exact rfl
        | true =>
            dsimp only [if_true]
            rw [readOthers_nil]
            exact h.kind_finish
      · rintro another _ rest₁ rest₁' hseparator rfl hrest₁
        have hless : rest₁.length < length := hlength ▸ Nat.lt_trans
          (readSeparator_length finish hseparator) (readAlternative_length finish hterm)
        cases another with
        | false => exact fun _ => .ok ⟨htermLike, .nil⟩ hrest₁
        | true =>
            exact (ih _ hless hrest₁ rfl).map (fun later => (term, later.1 :: later.2))
              (fun later => (term', later.1 :: later.2))
              fun hlater => ⟨htermLike, .cons hlater.1 hlater.2⟩

theorem readBlock_carriesOver {opening opening' : Token} (hopening : R opening opening')
    (hinput : List.Forall₂ R input input') :
    CarriesOver R more (Term.Like R) (readBlock finish opening input)
      (readBlock finish' opening' (input' ++ more)) := by
  rw [readBlock_eq, readBlock_eq]
  refine (readAlternative_carriesOver h true hinput).bind (fun _ => h.kind_finish) ?_
  intro first first' rest rest' _ hfirst hrest
  refine (readSeparator_carriesOver h true hrest).bind ?_ ?_
  · intro another
    dsimp only
    rw [readOthers_nil]
    exact h.kind_finish
  · rintro _ _ rest₁ rest₁' _ rfl hrest₁
    exact (readOthers_carriesOver h hrest₁).map
      (fun later => Term.alternatives opening first later.1 later.2)
      (fun later => Term.alternatives opening' first' later.1 later.2)
      fun hlater => Term.Like.alternatives hopening hfirst hlater.1 hlater.2

theorem readTerm_carriesOver {token token' : Token} (htoken : R token token')
    (hinput : List.Forall₂ R input input') :
    CarriesOver R more (Term.Like R) (readTerm finish token input)
      (readTerm finish' token' (input' ++ more)) := by
  unfold readTerm
  rw [← h.kind_eq htoken]
  split
  next =>
    cases hinput with
    | nil =>
        intro hmore
        obtain rfl := hmore rfl
        exact .ok (.tag ⟨rfl, htoken⟩) .nil
    | @cons next next' rest rest' hnext hrest =>
        rw [List.cons_append]
        dsimp only
        rw [← h.kind_eq hnext]
        split
        next => exact (readField_carriesOver h htoken hnext hrest).map Term.field Term.field .field
        next => exact fun _ => .ok (.tag ⟨rfl, htoken⟩) (.cons hnext hrest)
  next => exact (readNegated_carriesOver h hinput).map Term.tag Term.tag .tag
  next => exact readBlock_carriesOver h htoken hinput
  all_goals exact fun _ => .error htoken

/-- Reads terms to the end, where no token is left. -/
def readAll (finish : Token) (input : List Token) : Except ParseError (List Term × List Token) :=
  (readTerms finish input).map (·, [])

omit h in
theorem readAll_cons (token : Token) (input : List Token) :
    readAll finish (token :: input) = (readTerm finish token input).bind fun (term, rest) =>
      (readAll finish rest).map fun (terms, rest) => (term :: terms, rest) := by
  rw [readAll, readTerms]
  cases readTerm finish token input with
  | error e => rfl
  | ok found =>
      obtain ⟨term, rest⟩ := found
      simp only [Except.bind, readAll]
      cases readTerms finish rest with
      | error e => rfl
      | ok terms => rfl

theorem readAll_carriesOver (hinput : List.Forall₂ R input input') :
    CarriesOver R more (List.Forall₂ (Term.Like R)) (readAll finish input)
      (readAll finish' (input' ++ more)) := by
  induction hlength : input.length using Nat.strong_induction_on generalizing input input' with
  | _ length ih =>
      cases hinput with
      | nil =>
          rw [readAll, readTerms]
          intro hmore
          obtain rfl := hmore rfl
          rw [readAll, List.append_nil, readTerms]
          exact .ok .nil .nil
      | @cons token token' rest rest' htoken hrest =>
          rw [List.cons_append, readAll_cons, readAll_cons]
          refine (readTerm_carriesOver h htoken hrest).bind ?_ ?_
          · intro term
            dsimp only
            rw [readAll, readTerms]
            exact rfl
          · intro term term' rest₁ rest₁' hread hterm hrest₁
            have hless : rest₁.length < length :=
              hlength ▸ Nat.lt_succ_of_le (readTerm_length finish hread)
            exact (ih _ hless hrest₁ rfl).map (term :: ·) (term' :: ·) (.cons hterm)

end

end Parser

/-- A query of terms, if there are any. -/
def Query.ofTerms (finish : Token) :
    List Term × List Token → Except ParseError (Query × List Token)
  | ([], _) => .error ⟨.emptyQuery, finish⟩
  | (first :: others, rest) => .ok (⟨first, others⟩, rest)

/-- Parses tokens to the end, where no token is left. -/
def Query.readAll (tokens : List Token) : Except ParseError (Query × List Token) :=
  (Query.ofTokens tokens).map (·, [])

theorem Query.readAll_eq (tokens : List Token) :
    readAll tokens =
      (Parser.readAll (endToken tokens) (beforeEnd tokens)).bind (ofTerms (endToken tokens)) := by
  rw [readAll, ofTokens, Parser.readAll]
  cases Parser.readTerms (endToken tokens) (beforeEnd tokens) with
  | error e => rfl
  | ok terms => cases terms <;> rfl

theorem Query.readAll_carriesOver {R : Token → Token → Prop} {more tokens tokens' body : List Token}
    (h : Parser.SideBySide R more (endToken tokens) (endToken tokens'))
    (htokens : List.Forall₂ R (beforeEnd tokens) body) (hmore : beforeEnd tokens' = body ++ more) :
    Parser.CarriesOver R more (Query.Like R) (readAll tokens) (readAll tokens') := by
  rw [readAll_eq, readAll_eq, hmore]
  refine (Parser.readAll_carriesOver h htokens).bind ?_ ?_
  · intro terms
    cases terms with
    | nil => exact h.kind_finish
    | cons first others => exact rfl
  · intro terms terms' rest rest' _ hterms hrest
    cases hterms with
    | nil => exact h.error_finish (fun _ => .error ⟨.emptyQuery, endToken tokens'⟩) rfl
    | cons hfirst hothers => exact fun _ => .ok (.cons hfirst hothers) hrest

/-- Two outcomes of parsing that are alike but for tokens, which are related each to each. -/
inductive ParsesAlike (R : Token → Token → Prop) :
    Except ParseError Query → Except ParseError Query → Prop
  | ok {q q' : Query} (hlike : q.Like R q') : ParsesAlike R (.ok q) (.ok q')
  | error {fault : Fault} {token token' : Token} (htoken : R token token') :
      ParsesAlike R (.error ⟨fault, token⟩) (.error ⟨fault, token'⟩)

section

variable {R : Token → Token → Prop} {tokens tokens' : List Token}

theorem ParsesAlike.of_agree {more : List Token}
    (h : Parser.Agree R more (Query.Like R) (Query.readAll tokens) (Query.readAll tokens')) :
    ParsesAlike R (Query.ofTokens tokens) (Query.ofTokens tokens') := by
  unfold Query.readAll at h
  cases hparse : Query.ofTokens tokens with
  | error e =>
      cases hparse' : Query.ofTokens tokens' with
      | error e' =>
          rw [hparse, hparse'] at h
          cases h with
          | error htoken => exact .error htoken
      | ok q' =>
          rw [hparse, hparse'] at h
          cases h
  | ok q =>
      cases hparse' : Query.ofTokens tokens' with
      | error e' =>
          rw [hparse, hparse'] at h
          cases h
      | ok q' =>
          rw [hparse, hparse'] at h
          exact .ok h.of_ok

variable (hkind : ∀ {t t' : Token}, R t t' → t.kind = t'.kind)

include hkind

theorem forall₂_beforeEnd (h : List.Forall₂ R tokens tokens') :
    List.Forall₂ R (beforeEnd tokens) (beforeEnd tokens') := by
  unfold beforeEnd
  induction h with
  | nil => exact .nil
  | @cons t t' rest rest' htoken _ ih =>
      rw [List.takeWhile_cons, List.takeWhile_cons, ← hkind htoken]
      split
      · exact .cons htoken ih
      · exact .nil

theorem endToken_related (h : List.Forall₂ R tokens tokens')
    (hend : ∃ t ∈ tokens, t.kind = .endOfQuery) : R (endToken tokens) (endToken tokens') := by
  have hfound : ∃ t t', tokens.find? (·.kind = .endOfQuery) = some t ∧
      tokens'.find? (·.kind = .endOfQuery) = some t' ∧ R t t' := by
    induction h with
    | nil =>
        obtain ⟨t, ht, -⟩ := hend
        cases ht
    | @cons t t' rest rest' htoken _ ih =>
        rw [List.find?_cons, List.find?_cons, ← hkind htoken]
        by_cases hkindEnd : t.kind = .endOfQuery
        · rw [decide_eq_true hkindEnd]
          exact ⟨t, t', rfl, rfl, htoken⟩
        · rw [decide_eq_false hkindEnd]
          obtain ⟨last, hlast, hlastEnd⟩ := hend
          have hmem : last ∈ rest :=
            (List.mem_cons.mp hlast).resolve_left fun heq => hkindEnd (heq ▸ hlastEnd)
          exact ih ⟨last, hmem, hlastEnd⟩
  obtain ⟨t, t', hfirst, hfirst', htoken⟩ := hfound
  rwa [endToken, endToken, hfirst, hfirst']

/-- Tokens that are related to others, an end of the query among them, are parsed alike. -/
theorem parsesAlike_ofTokens (h : List.Forall₂ R tokens tokens')
    (hend : ∃ t ∈ tokens, t.kind = .endOfQuery) :
    ParsesAlike R (Query.ofTokens tokens) (Query.ofTokens tokens') := by
  have hside : Parser.SideBySide R [] (endToken tokens) (endToken tokens') :=
    ⟨hkind, endToken_kind tokens, fun _ => endToken_related hkind h hend⟩
  exact .of_agree (Query.readAll_carriesOver hside (forall₂_beforeEnd hkind h)
    (List.append_nil _).symm fun _ => rfl)

end

theorem mapError_mapM {α β ε ε' : Type} (f : α → Except ε β) (view : ε → ε') (xs : List α) :
    (xs.mapM f).mapError view = xs.mapM fun x => (f x).mapError view := by
  induction xs with
  | nil => rfl
  | cons x xs ih =>
      rw [List.mapM_cons, List.mapM_cons, ← ih]
      cases f x with
      | error e => rfl
      | ok y => cases xs.mapM f <;> rfl

/-- Steps that come to the same each come to the same one after another. -/
theorem mapM_congr {α β γ ε : Type} {f : α → Except ε γ} {g : β → Except ε γ} {xs : List α}
    {ys : List β} (h : List.Forall₂ (fun x y => f x = g y) xs ys) : xs.mapM f = ys.mapM g := by
  induction h with
  | nil => rfl
  | cons hstep _ ih => rw [List.mapM_cons, List.mapM_cons, hstep, ih]

section

variable {R : Token → Token → Prop}
  (hR : ∀ {t t' : Token}, R t t' → Text.lowercase t.value = Text.lowercase t'.value)

include hR

theorem TagTerm.Like.test_eq {t t' : TagTerm} (h : t.Like R t') : t.test = t'.test := by
  rw [test, test, h.negated_eq, hR h.word]

theorem forall₂_map_test {ts ts' : List TagTerm} (h : List.Forall₂ (TagTerm.Like R) ts ts') :
    ts.map TagTerm.test = ts'.map TagTerm.test := by
  induction h with
  | nil => rfl
  | cons hfirst _ ih => rw [List.map_cons, List.map_cons, hfirst.test_eq hR, ih]

theorem Term.Like.tests_eq {t t' : Term} (h : t.Like R t') :
    t.tags.map TagTerm.test = t'.tags.map TagTerm.test := by
  cases h with
  | tag h => exact forall₂_map_test hR (.cons h .nil)
  | alternatives _ hfirst hsecond hothers =>
      exact forall₂_map_test hR (.cons hfirst (.cons hsecond hothers))
  | field h => rfl

/-- Only fields that are alike may say different things. -/
theorem Term.Like.clause_cases {t t' : Term} (h : t.Like R t') :
    t.clause = t'.clause ∨ ∃ f f', t = .field f ∧ t' = .field f' ∧ f.Like R f' := by
  have htests := h.tests_eq hR
  cases h with
  | tag h =>
      have htest := (List.cons.inj htests).1
      exact .inl (by rw [clause, clause, htest])
  | alternatives _ _ _ _ =>
      rw [tags, tags] at htests
      exact .inl (by rw [clause, clause, htests])
  | field h => exact .inr ⟨_, _, rfl, rfl, h⟩

theorem Query.Like.tagNames_eq {q q' : Query} (h : q.Like R q') : q.tagNames = q'.tagNames := by
  have hnames {ts ts' : List Term} (hterms : List.Forall₂ (Term.Like R) ts ts') :
      (ts.flatMap fun t => t.tags.map fun tag => (tag.test.name, ())) =
        ts'.flatMap fun t => t.tags.map fun tag => (tag.test.name, ()) := by
    induction hterms with
    | nil => rfl
    | cons hterm _ ih =>
        have htests := congrArg (List.map fun test => (test.name, ())) (hterm.tests_eq hR)
        rw [List.map_map, List.map_map] at htests
        rw [List.flatMap_cons, List.flatMap_cons, ih]
        exact congrArg (· ++ _) htests
  rw [tagNames, tagNames, hnames h]

end

/-- What a query compiles to depends on it by the names of its tags and by what its terms say. -/
theorem compile_congr {q q' : Query} (hnames : q.tagNames = q'.tagNames)
    (hclauses : q.clauses = q'.clauses) (services : Services) (config : Config) (viewer : Viewer) :
    compile services config viewer q = compile services config viewer q' := by
  unfold compile Query.draft
  rw [hnames, hclauses]

end TagQuery
