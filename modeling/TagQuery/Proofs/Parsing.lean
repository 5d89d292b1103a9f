import TagQuery.Proofs.Grammar
import TagQuery.Query.Parser

/-!
The parser accepts what the grammar derives, and gives the tree of the derivation. For each reader
one statement says when it succeeds, with what result and with which tokens left.
-/

namespace TagQuery

namespace Grammar

def TagDerivation.term : TagDerivation → TagTerm
  | .word w => ⟨false, w.val⟩
  | .negated _ w => ⟨true, w.val⟩

/-- The operator of a field, which is implied at the colon where there is none. -/
def operatorToken (colon : Leaf .colon) (operator? : Option (Leaf .operator)) : Token :=
  (operator?.map Subtype.val).getD (impliedOperator colon.val)

def TermDerivation.term : TermDerivation → Term
  | .tag t => .tag t.term
  | .block opening first second others _ =>
      .alternatives opening.val first.term second.2.term (others.map fun next => next.2.term)
  | .field name colon operator? value =>
      .field ⟨name.val, colon.val, operatorToken colon operator?, value.val⟩

def QueryDerivation.query (d : QueryDerivation) : Query :=
  ⟨d.first.term, d.others.map TermDerivation.term⟩

theorem TagDerivation.node_term (d : TagDerivation) : d.term.node = d.node := by
  cases d <;> rfl

theorem TermDerivation.node_term (d : TermDerivation) : d.term.node = d.node := by
  cases d with
  | tag t => exact t.node_term
  | block opening first second others closing =>
      simp only [term, Term.node, node, List.map_cons, List.map_map, Function.comp_def,
        TagDerivation.node_term]
  | field name colon operator? value => rfl

theorem TermDerivation.token_term (d : TermDerivation) : d.term.token = d.node.token := by
  match d with
  | .tag (.word _) | .tag (.negated _ _) | .block .. | .field .. => rfl

theorem QueryDerivation.tree_query (d : QueryDerivation) : d.query.tree = d.node := by
  obtain ⟨first, others⟩ := d
  cases others with
  | nil => exact first.node_term
  | cons second others =>
      simp only [query, Query.tree, Query.terms, node, terms, List.map_cons, List.map_map,
        Function.comp_def, TermDerivation.node_term, TermDerivation.token_term]

end Grammar

open Grammar

namespace Parser

variable {finish : Token} (hfinish : finish.kind ≠ .colon)

/-! ### What each reader accepts -/

include hfinish in
theorem noColon_iff_peek (rest : List Token) :
    NoColon rest ↔ (peek finish rest).kind ≠ .colon := by
  cases rest with
  | nil => exact ⟨fun _ => hfinish, fun _ => nofun⟩
  | cons token rest => exact noColon_cons

include hfinish in
theorem readNegated_eq_ok {input rest : List Token} {t : TagTerm} :
    readNegated finish input = .ok (t, rest) ↔
      ∃ w : Leaf .word, input = w.val :: rest ∧ NoColon rest ∧ ⟨true, w.val⟩ = t := by
  constructor
  · intro h
    cases input with
    | nil => cases h
    | cons token tail =>
        unfold readNegated at h
        dsimp only at h
        split at h
        next hword =>
          split at h
          next => cases h
          next hcolon =>
            cases h
            exact ⟨⟨token, hword⟩, rfl, (noColon_iff_peek hfinish _).mpr hcolon, rfl⟩
        next => cases h
        next => cases h
  · rintro ⟨⟨w, hword⟩, rfl, hrest, rfl⟩
    simp only [readNegated, hword]
    exact if_neg ((noColon_iff_peek hfinish _).mp hrest)

include hfinish in
theorem readAlternative_eq_ok {isFirst : Bool} {input rest : List Token} {t : TagTerm} :
    readAlternative finish isFirst input = .ok (t, rest) ↔
      ∃ d : TagDerivation, input = d.leaves ++ rest ∧ NoColon rest ∧ d.term = t := by
  constructor
  · intro h
    cases input with
    | nil => cases h
    | cons token tail =>
        unfold readAlternative at h
        dsimp only at h
        split at h
        next hword =>
          split at h
          next => cases h
          next hcolon =>
            cases h
            exact ⟨.word ⟨token, hword⟩, rfl, (noColon_iff_peek hfinish _).mpr hcolon, rfl⟩
        next hdash =>
          cases hnegated : readNegated finish tail with
          | error e =>
              rw [hnegated] at h
              cases h
          | ok found =>
              rw [hnegated] at h
              cases h
              obtain ⟨w, rfl, hrest, rfl⟩ := (readNegated_eq_ok hfinish).mp hnegated
              exact ⟨.negated ⟨token, hdash⟩ w, rfl, hrest, rfl⟩
        all_goals cases h
  · rintro ⟨d, rfl, hrest, rfl⟩
    cases d with
    | word w =>
        simp only [TagDerivation.leaves, List.cons_append, List.nil_append, readAlternative,
          w.property]
        exact if_neg ((noColon_iff_peek hfinish _).mp hrest)
    | negated dash w =>
        simp only [TagDerivation.leaves, List.cons_append, List.nil_append, readAlternative,
          dash.property]
        rw [(readNegated_eq_ok hfinish).mpr ⟨w, rfl, hrest, rfl⟩]
        rfl

theorem readSeparator_eq_ok {isFirst more : Bool} {input rest : List Token} :
    readSeparator finish isFirst input = .ok (more, rest) ↔
      (more = true ∧ ∃ separator : Leaf .orContinue, input = separator.val :: rest) ∨
        (more = false ∧ isFirst = false ∧ ∃ closing : Leaf .orEnd, input = closing.val :: rest) := by
  constructor
  · intro h
    cases input with
    | nil => cases h
    | cons token tail =>
        unfold readSeparator at h
        dsimp only at h
        split at h
        next hkind =>
          cases h
          exact Or.inl ⟨rfl, ⟨token, hkind⟩, rfl⟩
        next hkind =>
          split at h
          next => cases h
          next hfirst =>
            cases h
            exact Or.inr ⟨rfl, Bool.eq_false_iff.mpr hfirst, ⟨token, hkind⟩, rfl⟩
        all_goals cases h
  · rintro (⟨rfl, separator, rfl⟩ | ⟨rfl, rfl, closing, rfl⟩)
    · simp only [readSeparator, separator.property]
    · simp only [readSeparator, closing.property]
      rfl

theorem noColon_next (others : List NextDerivation) (closing : Leaf .orEnd) (rest : List Token) :
    NoColon (others.flatMap NextDerivation.leaves ++ closing.val :: rest) := by
  cases others with
  | nil => exact noColon_cons.mpr (by rw [closing.property]; nofun)
  | cons next others => exact noColon_cons.mpr (by rw [next.1.property]; nofun)

theorem readOthers_last {input rest rest' : List Token} {t : TagTerm}
    (halternative : readAlternative finish false input = .ok (t, rest))
    (hseparator : readSeparator finish false rest = .ok (false, rest')) :
    readOthers finish input = .ok ((t, []), rest') := by
  rw [readOthers]
  split
  next e he =>
    rw [halternative] at he
    cases he
  next t' rest₁ h₁ =>
    rw [halternative] at h₁
    cases h₁
    split <;> simp_all

theorem readOthers_more {input rest rest' rest'' : List Token} {t next : TagTerm}
    {others : List TagTerm} (halternative : readAlternative finish false input = .ok (t, rest))
    (hseparator : readSeparator finish false rest = .ok (true, rest'))
    (hothers : readOthers finish rest' = .ok ((next, others), rest'')) :
    readOthers finish input = .ok ((t, next :: others), rest'') := by
  rw [readOthers]
  split
  next e he =>
    rw [halternative] at he
    cases he
  next t' rest₁ h₁ =>
    rw [halternative] at h₁
    cases h₁
    split <;> simp_all

include hfinish in
/-- The alternatives after the first `~` of a block, up to the brace that closes it. -/
theorem readOthers_eq_ok {input rest : List Token} {second : TagTerm} {others : List TagTerm} :
    readOthers finish input = .ok ((second, others), rest) ↔
      ∃ (d : TagDerivation) (ds : List NextDerivation) (closing : Leaf .orEnd),
        input = d.leaves ++ (ds.flatMap NextDerivation.leaves ++ closing.val :: rest) ∧
          d.term = second ∧ ds.map (fun next => next.2.term) = others := by
  constructor
  · intro h
    fun_induction readOthers finish input generalizing second others rest with
    | case1 => cases h
    | case2 => cases h
    | case3 input t rest₁ halternative rest₂ hseparator =>
        cases h
        obtain ⟨d, rfl, -, rfl⟩ := (readAlternative_eq_ok hfinish).mp halternative
        rcases readSeparator_eq_ok.mp hseparator with ⟨hmore, -⟩ | ⟨-, -, closing, rfl⟩
        · cases hmore
        · exact ⟨d, [], closing, rfl, rfl, rfl⟩
    | case4 => cases h
    | case5 input t rest₁ halternative rest₂ hseparator next others' rest₃ hothers ih =>
        cases h
        obtain ⟨d, rfl, -, rfl⟩ := (readAlternative_eq_ok hfinish).mp halternative
        obtain ⟨d', ds, closing, rfl, rfl, rfl⟩ := ih hothers
        rcases readSeparator_eq_ok.mp hseparator with ⟨-, separator, rfl⟩ | ⟨hmore, -⟩
        · exact ⟨d, (separator, d') :: ds, closing, by simp [NextDerivation.leaves], rfl, rfl⟩
        · cases hmore
  · rintro ⟨d, ds, closing, rfl, rfl, rfl⟩
    induction ds generalizing d with
    | nil =>
        exact readOthers_last
          ((readAlternative_eq_ok hfinish).mpr ⟨d, rfl, noColon_next [] closing rest, rfl⟩)
          (readSeparator_eq_ok.mpr (Or.inr ⟨rfl, rfl, closing, rfl⟩))
    | cons next ds ih =>
        obtain ⟨separator, d'⟩ := next
        have hrest : ((separator, d') :: ds).flatMap NextDerivation.leaves ++ closing.val :: rest =
            separator.val :: (d'.leaves ++
              (ds.flatMap NextDerivation.leaves ++ closing.val :: rest)) := by
          simp [NextDerivation.leaves]
        refine readOthers_more
          ((readAlternative_eq_ok hfinish).mpr ⟨d, rfl, noColon_next _ closing rest, rfl⟩) ?_ (ih d')
        rw [hrest]
        exact readSeparator_eq_ok.mpr (Or.inl ⟨rfl, separator, rfl⟩)

theorem readOperator_of_leaf (colon : Leaf .colon) (operator? : Option (Leaf .operator))
    (value : Leaf .word) (rest : List Token) :
    readOperator colon.val (operator?.toList.map Subtype.val ++ value.val :: rest) =
      (operatorToken colon operator?, value.val :: rest) := by
  cases operator? with
  | none => simp [readOperator, value.property, operatorToken]
  | some operator => simp [readOperator, operator.property, operatorToken]

theorem readOperator_split (colon : Leaf .colon) (input : List Token) :
    ∃ operator? : Option (Leaf .operator),
      (readOperator colon.val input).1 = operatorToken colon operator? ∧
        input = operator?.toList.map Subtype.val ++ (readOperator colon.val input).2 := by
  cases input with
  | nil => exact ⟨none, rfl, rfl⟩
  | cons token rest =>
      by_cases hkind : token.kind = .operator
      · exact ⟨some ⟨token, hkind⟩, by simp [readOperator, hkind, operatorToken],
          by simp [readOperator, hkind]⟩
      · exact ⟨none, by simp [readOperator, hkind, operatorToken], by simp [readOperator, hkind]⟩

theorem readField_eq_ok (name : Token) (colon : Leaf .colon) {input rest : List Token}
    {t : FieldTerm} :
    readField finish name colon.val input = .ok (t, rest) ↔
      ∃ (operator? : Option (Leaf .operator)) (value : Leaf .word),
        input = operator?.toList.map Subtype.val ++ value.val :: rest ∧
          ⟨name, colon.val, operatorToken colon operator?, value.val⟩ = t := by
  constructor
  · intro h
    obtain ⟨operator?, hoperator, hinput⟩ := readOperator_split colon input
    unfold readField at h
    dsimp only at h
    rw [hoperator] at h
    split at h
    next => cases h
    next value tail htail =>
      split at h
      next hword =>
        cases h
        exact ⟨operator?, ⟨value, hword⟩, by rw [hinput, htail], rfl⟩
      next => cases h
      next => cases h
  · rintro ⟨operator?, value, rfl, rfl⟩
    simp only [readField, readOperator_of_leaf, value.property]

include hfinish in
theorem readBlock_eq_ok (opening : Leaf .orStart) {input rest : List Token} {t : Term} :
    readBlock finish opening.val input = .ok (t, rest) ↔
      ∃ first second others closing,
        opening.val :: input =
          (TermDerivation.block opening first second others closing).leaves ++ rest ∧
          (TermDerivation.block opening first second others closing).term = t := by
  constructor
  · intro h
    unfold readBlock at h
    split at h
    next => cases h
    next first rest₁ hfirst =>
      split at h
      next => cases h
      next more rest₂ hseparator =>
        split at h
        next => cases h
        next second others rest₃ hothers =>
          cases h
          obtain ⟨d, rfl, -, rfl⟩ := (readAlternative_eq_ok hfinish).mp hfirst
          obtain ⟨d', ds, closing, rfl, rfl, rfl⟩ := (readOthers_eq_ok hfinish).mp hothers
          rcases readSeparator_eq_ok.mp hseparator with ⟨-, separator, rfl⟩ | ⟨-, hnot, -⟩
          · exact ⟨d, (separator, d'), ds, closing,
              by simp [TermDerivation.leaves, NextDerivation.leaves], rfl⟩
          · cases hnot
  · rintro ⟨first, ⟨separator, d'⟩, others, closing, hinput, rfl⟩
    have hsplit : input = first.leaves ++ separator.val :: (d'.leaves ++
        (others.flatMap NextDerivation.leaves ++ closing.val :: rest)) := by
      simpa [TermDerivation.leaves, NextDerivation.leaves] using hinput
    have hcolon : NoColon (separator.val :: (d'.leaves ++
        (others.flatMap NextDerivation.leaves ++ closing.val :: rest))) :=
      noColon_cons.mpr (by simp [separator.property])
    unfold readBlock
    rw [(readAlternative_eq_ok hfinish).mpr ⟨first, hsplit, hcolon, rfl⟩]
    dsimp only
    rw [readSeparator_eq_ok.mpr (Or.inl ⟨rfl, separator, rfl⟩)]
    dsimp only
    rw [(readOthers_eq_ok hfinish).mpr ⟨d', others, closing, rfl, rfl, rfl⟩]
    rfl

include hfinish in
/-- What a term is read from derives the term. -/
theorem readTerm_sound {token : Token} {input rest : List Token} {t : Term}
    (h : readTerm finish token input = .ok (t, rest)) :
    ∃ d : TermDerivation, token :: input = d.leaves ++ rest ∧ d.term = t := by
  unfold readTerm at h
  split at h
  next hword =>
    split at h
    next =>
      cases h
      exact ⟨.tag (.word ⟨token, hword⟩), rfl, rfl⟩
    next next tail =>
      split at h
      next hcolon =>
        cases hfield : readField finish token next tail with
        | error e =>
            rw [hfield] at h
            cases h
        | ok found =>
            rw [hfield] at h
            cases h
            obtain ⟨operator?, value, rfl, hterm⟩ :=
              (readField_eq_ok token ⟨next, hcolon⟩).mp hfield
            exact ⟨.field ⟨token, hword⟩ ⟨next, hcolon⟩ operator? value,
              by simp [TermDerivation.leaves], congrArg Term.field hterm⟩
      next =>
        cases h
        exact ⟨.tag (.word ⟨token, hword⟩), rfl, rfl⟩
  next hdash =>
    cases hnegated : readNegated finish input with
    | error e =>
        rw [hnegated] at h
        cases h
    | ok found =>
        rw [hnegated] at h
        cases h
        obtain ⟨w, rfl, -, hterm⟩ := (readNegated_eq_ok hfinish).mp hnegated
        exact ⟨.tag (.negated ⟨token, hdash⟩ w), rfl, congrArg Term.tag hterm⟩
  next hopening =>
    obtain ⟨first, second, others, closing, hinput, hterm⟩ :=
      (readBlock_eq_ok hfinish ⟨token, hopening⟩).mp h
    exact ⟨_, hinput, hterm⟩
  all_goals cases h

include hfinish in
/-- A derived term is read whatever follows it, unless that would make a field name of its word. -/
theorem readTerm_complete {token : Token} {input rest : List Token} {d : TermDerivation}
    (hinput : token :: input = d.leaves ++ rest) (hrest : NoColon rest) :
    readTerm finish token input = .ok (d.term, rest) := by
  match d with
  | .tag (.word w) =>
      obtain ⟨rfl, rfl⟩ := List.cons.inj hinput
      cases input with
      | nil => simp only [readTerm, w.property]; rfl
      | cons next tail => simp only [readTerm, w.property, if_neg (noColon_cons.mp hrest)]; rfl
  | .tag (.negated dash w) =>
      obtain ⟨rfl, rfl⟩ := List.cons.inj hinput
      have hnegated := (readNegated_eq_ok hfinish).mpr ⟨w, rfl, hrest, rfl⟩
      simp only [readTerm, dash.property]
      exact congrArg (Except.map fun found => (Term.tag found.1, found.2)) hnegated
  | .block opening first second others closing =>
      obtain ⟨rfl, -⟩ := List.cons.inj hinput
      simp only [readTerm, opening.property]
      exact (readBlock_eq_ok hfinish opening).mpr ⟨first, second, others, closing, hinput, rfl⟩
  | .field name colon operator? value =>
      simp only [TermDerivation.leaves, List.cons_append, List.append_assoc,
        List.nil_append] at hinput
      obtain ⟨rfl, rfl⟩ := List.cons.inj hinput
      simp only [readTerm, name.property, if_pos colon.property]
      rw [(readField_eq_ok name.val colon).mpr ⟨operator?, value, rfl, rfl⟩]
      rfl

theorem readTerms_cons {token : Token} {input rest : List Token} {t : Term} {ts : List Term}
    (hterm : readTerm finish token input = .ok (t, rest))
    (hterms : readTerms finish rest = .ok ts) :
    readTerms finish (token :: input) = .ok (t :: ts) := by
  rw [readTerms]
  split
  next e he =>
    rw [hterm] at he
    cases he
  next t' rest' h' =>
    rw [hterm] at h'
    cases h'
    rw [hterms]

include hfinish in
theorem readTerms_eq_ok {input : List Token} {ts : List Term} :
    readTerms finish input = .ok ts ↔
      ∃ ds : List TermDerivation, ds.flatMap TermDerivation.leaves = input ∧
        ds.map TermDerivation.term = ts := by
  constructor
  · intro h
    fun_induction readTerms finish input generalizing ts with
    | case1 =>
        cases h
        exact ⟨[], rfl, rfl⟩
    | case2 => cases h
    | case3 => cases h
    | case4 token input t rest hterm ts' hterms ih =>
        cases h
        obtain ⟨d, hinput, rfl⟩ := readTerm_sound hfinish hterm
        obtain ⟨ds, rfl, rfl⟩ := ih hterms
        exact ⟨d :: ds, hinput.symm, rfl⟩
  · rintro ⟨ds, rfl, rfl⟩
    induction ds with
    | nil => rw [List.flatMap_nil, readTerms]; rfl
    | cons d ds ih =>
        cases hleaves : (d :: ds).flatMap TermDerivation.leaves with
        | nil => exact absurd hleaves (d.leaves_append_ne_nil _)
        | cons token input =>
            exact readTerms_cons (readTerm_complete hfinish hleaves.symm (noColon_flatMap ds)) ih

end Parser

theorem endToken_kind (tokens : List Token) : (endToken tokens).kind = .endOfQuery := by
  unfold endToken
  split
  next token hfind => simpa using List.find?_some hfind
  next => rfl

theorem Query.ofTokens_eq_ok {tokens : List Token} {q : Query} :
    Query.ofTokens tokens = .ok q ↔
      ∃ d : QueryDerivation, d.leaves = beforeEnd tokens ∧ d.query = q := by
  have hfinish : (endToken tokens).kind ≠ .colon := by
    rw [endToken_kind]
    nofun
  have hterms : ∀ ts, Parser.readTerms (endToken tokens) (beforeEnd tokens) = .ok ts ↔
      ∃ ds : List TermDerivation, ds.flatMap TermDerivation.leaves = beforeEnd tokens ∧
        ds.map TermDerivation.term = ts := fun _ => Parser.readTerms_eq_ok hfinish
  constructor
  · intro h
    unfold ofTokens at h
    dsimp only at h
    split at h
    next => cases h
    next => cases h
    next first others hread =>
      cases h
      obtain ⟨ds, hleaves, hds⟩ := (hterms _).mp hread
      obtain ⟨d, ds', rfl, rfl, rfl⟩ := List.map_eq_cons_iff.mp hds
      exact ⟨⟨d, ds'⟩, hleaves, rfl⟩
  · rintro ⟨d, hleaves, rfl⟩
    have hread := (hterms (d.first.term :: d.others.map TermDerivation.term)).mpr
      ⟨d.terms, hleaves, rfl⟩
    unfold ofTokens
    dsimp only
    rw [hread]
    rfl

theorem tree_ofTokens_eq_ok {tokens : List Token} {root : Node} :
    (Query.ofTokens tokens).map Query.tree = .ok root ↔
      ∃ d : QueryDerivation, d.leaves = beforeEnd tokens ∧ d.node = root := by
  constructor
  · intro h
    cases hquery : Query.ofTokens tokens with
    | error e =>
        rw [hquery] at h
        cases h
    | ok q =>
        rw [hquery] at h
        cases h
        obtain ⟨d, hleaves, rfl⟩ := Query.ofTokens_eq_ok.mp hquery
        exact ⟨d, hleaves, d.tree_query.symm⟩
  · rintro ⟨d, hleaves, rfl⟩
    rw [Query.ofTokens_eq_ok.mpr ⟨d, hleaves, rfl⟩, ← d.tree_query]
    rfl

/-- Tokens have a tree exactly if the kinds of those before the first end of the query derive from
the grammar. These then have one derivation, whose node is the tree, and the tokens from the first
end on make no difference. -/
theorem tree_ofTokens_iff_derives (tokens : List Token) :
    ((∃ root, (Query.ofTokens tokens).map Query.tree = .ok root) ↔
      Derives query (beforeEnd tokens)) ∧
    (Derives query (beforeEnd tokens) →
      ∃! d : QueryDerivation, d.leaves = beforeEnd tokens) ∧
    (∀ d : QueryDerivation, d.leaves = beforeEnd tokens →
      (Query.ofTokens tokens).map Query.tree = .ok d.node) ∧
    ∀ others root, beforeEnd others = beforeEnd tokens →
      (Query.ofTokens tokens).map Query.tree = .ok root →
      (Query.ofTokens others).map Query.tree = .ok root := by
  refine ⟨?_, ?_, ?_, ?_⟩
  · rw [derives_query]
    constructor
    · rintro ⟨root, hroot⟩
      obtain ⟨d, hleaves, -⟩ := tree_ofTokens_eq_ok.mp hroot
      exact ⟨d, hleaves⟩
    · rintro ⟨d, hleaves⟩
      exact ⟨d.node, tree_ofTokens_eq_ok.mpr ⟨d, hleaves, rfl⟩⟩
  · intro h
    obtain ⟨d, hleaves⟩ := (derives_query _).mp h
    exact ⟨d, hleaves, fun d' hd' => QueryDerivation.leaves_injective (hd'.trans hleaves.symm)⟩
  · intro d hleaves
    exact tree_ofTokens_eq_ok.mpr ⟨d, hleaves, rfl⟩
  · intro others root hsame hroot
    obtain ⟨d, hleaves, hnode⟩ := tree_ofTokens_eq_ok.mp hroot
    exact tree_ofTokens_eq_ok.mpr ⟨d, hleaves.trans hsame.symm, hnode⟩

end TagQuery
