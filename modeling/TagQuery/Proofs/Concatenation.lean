import TagQuery.Proofs.Correspondence
import TagQuery.Proofs.Rewording
import TagQuery.Proofs.Seams

/-!
Queries put one behind another. With white space between them their terms follow one another, and
what is wrong with either of them is wrong with both together: with the first one unless it only ends
too early, and with the second one unless it lacks its beginning.
-/

namespace TagQuery

open Text Grammar

/-- The terms of a tree: the children of a conjunction, or else the tree itself. -/
def Node.topLevel (root : Node) : List Node :=
  if root.kind = .conjunction then root.children else [root]

theorem Query.topLevel_tree (q : Query) : q.tree.topLevel = q.terms.map Term.node := by
  obtain ⟨first, others⟩ := q
  cases others with
  | nil => exact if_neg first.kind_node_ne
  | cons second others => exact if_pos rfl

section

variable {tokens tokens' body more : List Token} {e : ParseError}

theorem beforeEnd_append (h : ∀ t ∈ body, t.kind ≠ .endOfQuery) :
    beforeEnd (body ++ tokens) = body ++ beforeEnd tokens :=
  List.takeWhile_append_of_pos fun t ht => decide_eq_true (h t ht)

theorem endToken_append (h : ∀ t ∈ body, t.kind ≠ .endOfQuery)
    (hend : ∃ t ∈ tokens, t.kind = .endOfQuery) : endToken (body ++ tokens) = endToken tokens := by
  have hbody : body.find? (·.kind = .endOfQuery) = none :=
    List.find?_eq_none.mpr fun t ht => by simpa using h t ht
  obtain ⟨last, hlast, hkind⟩ := hend
  obtain ⟨t, ht⟩ : ∃ t, tokens.find? (·.kind = .endOfQuery) = some t :=
    Option.isSome_iff_exists.mp (List.find?_isSome.mpr ⟨last, hlast, decide_eq_true hkind⟩)
  rw [endToken, endToken, List.find?_append, hbody, Option.none_or, ht]

/-- An error that shows before the end of tokens shows there whatever follows them. -/
theorem Query.ofTokens_eq_error_of_append (hmore : beforeEnd tokens' = beforeEnd tokens ++ more)
    (h : ofTokens tokens = .error e) (hend : e.token.kind ≠ .endOfQuery) :
    ofTokens tokens' = .error e := by
  let R (t t' : Token) : Prop := t = t' ∨ t.kind = .endOfQuery ∧ t'.kind = .endOfQuery
  have hside : Parser.SideBySide R more (endToken tokens) (endToken tokens') := by
    refine ⟨?_, endToken_kind tokens, fun _ => .inr ⟨endToken_kind tokens, endToken_kind tokens'⟩⟩
    rintro t t' (rfl | ⟨hkind, hkind'⟩)
    · rfl
    · exact hkind.trans hkind'.symm
  have hcarries := Query.readAll_carriesOver hside (List.forall₂_same.mpr fun t _ => .inl rfl) hmore
  have halike : ParsesAlike R (ofTokens tokens) (ofTokens tokens') := by
    refine .of_agree (hcarries fun hreaches => absurd ?_ hend)
    rw [readAll, h] at hreaches
    exact hreaches
  rw [h] at halike
  generalize ofTokens tokens' = outcome at halike ⊢
  cases halike with
  | error htoken =>
      rcases htoken with rfl | ⟨hkind, -⟩
      · rfl
      · exact absurd hkind hend

namespace Parser

variable {finish : Token}

theorem readAll_append (hfinish : finish.kind ≠ .colon) (ds : List TermDerivation)
    {rest : List Token} (hrest : NoColon rest) :
    readAll finish (ds.flatMap TermDerivation.leaves ++ rest) =
      (readAll finish rest).map fun (terms, rest) => (ds.map TermDerivation.term ++ terms, rest) := by
  induction ds with
  | nil =>
      rw [List.flatMap_nil, List.nil_append]
      cases readAll finish rest <;> rfl
  | cons d ds ih =>
      have hfollows : NoColon (ds.flatMap TermDerivation.leaves ++ rest) := by
        cases ds with
        | nil => exact hrest
        | cons next ds =>
            rw [List.flatMap_cons, List.append_assoc]
            exact next.noColon_leaves _
      rw [List.flatMap_cons, List.append_assoc]
      cases hleaves : d.leaves ++ (ds.flatMap TermDerivation.leaves ++ rest) with
      | nil => exact absurd hleaves (d.leaves_append_ne_nil _)
      | cons token input =>
          rw [readAll_cons, readTerm_complete hfinish hleaves.symm hfollows]
          simp only [Except.bind]
          rw [ih]
          cases readAll finish rest <;> rfl

theorem ne_nil_of_readAll {token : Token} {input rest : List Token} {terms : List Term}
    (h : readAll finish (token :: input) = .ok (terms, rest)) : terms ≠ [] := by
  rw [readAll_cons] at h
  cases hterm : readTerm finish token input with
  | error e =>
      rw [hterm] at h
      cases h
  | ok found =>
      rw [hterm] at h
      simp only [Except.bind] at h
      cases hothers : readAll finish found.2 with
      | error e =>
          rw [hothers] at h
          cases h
      | ok others =>
          rw [hothers] at h
          cases h
          exact List.cons_ne_nil _ _

end Parser

theorem Query.readAll_eq_error_iff : readAll tokens = .error e ↔ ofTokens tokens = .error e := by
  unfold readAll
  cases ofTokens tokens with
  | error e' => simp only [Except.map, Except.error.injEq]
  | ok q => exact ⟨nofun, nofun⟩

/-- Tokens that have been moved are rejected for the same fault, at the token moved likewise. -/
theorem Query.ofTokens_map_moved_of_error (move : Nat → Nat)
    (hend : ∃ t ∈ tokens, t.kind = .endOfQuery) (h : ofTokens tokens = .error e) :
    ofTokens (tokens.map (Token.moved move)) = .error ⟨e.fault, e.token.moved move⟩ := by
  let R (t t' : Token) : Prop := t.moved move = t'
  have hkind {t t' : Token} (hmoved : R t t') : t.kind = t'.kind := by
    rw [← show _ = _ from hmoved]
    rfl
  have hrelated : List.Forall₂ R tokens (tokens.map (Token.moved move)) :=
    List.forall₂_map_right_iff.mpr (List.forall₂_same.mpr fun _ _ => rfl)
  have halike := parsesAlike_ofTokens hkind hrelated hend
  rw [h] at halike
  generalize ofTokens (tokens.map (Token.moved move)) = outcome at halike ⊢
  cases halike with
  | error htoken => rw [← show _ = _ from htoken]

/-- Behind the tokens of a query, others are rejected as they would be on their own, unless they have
no term at all or make a field name of the last word of the query. -/
theorem Query.ofTokens_eq_error_behind (d : QueryDerivation) {next : Token}
    (hnext : next.kind ≠ .endOfQuery ∧ next.kind ≠ .colon)
    (hend : ∃ t ∈ next :: tokens, t.kind = .endOfQuery)
    (hkinds : ∀ t ∈ d.leaves, t.kind ≠ .endOfQuery)
    (h : ofTokens (next :: tokens) = .error e) : ofTokens (d.leaves ++ next :: tokens) = .error e := by
  have hbefore : beforeEnd (next :: tokens) = next :: beforeEnd tokens :=
    List.takeWhile_cons_of_pos (decide_eq_true hnext.1)
  have hfinish : (endToken (next :: tokens)).kind ≠ .colon := by
    rw [endToken_kind]
    nofun
  have hcolon : NoColon (next :: beforeEnd tokens) := noColon_cons.mpr hnext.2
  have hread : Parser.readAll (endToken (next :: tokens)) (next :: beforeEnd tokens) = .error e := by
    rw [← readAll_eq_error_iff, readAll_eq, hbefore] at h
    cases hfound : Parser.readAll (endToken (next :: tokens)) (next :: beforeEnd tokens) with
    | error e' =>
        rw [hfound] at h
        cases h
        rfl
    | ok found =>
        obtain ⟨terms, rest⟩ := found
        obtain ⟨first, others, rfl⟩ :=
          List.exists_cons_of_ne_nil (Parser.ne_nil_of_readAll hfound)
        rw [hfound] at h
        cases h
  rw [← readAll_eq_error_iff, readAll_eq, endToken_append hkinds hend, beforeEnd_append hkinds,
    hbefore]
  show Except.bind (Parser.readAll _ (d.terms.flatMap TermDerivation.leaves ++ _)) _ = _
  rw [Parser.readAll_append hfinish d.terms hcolon, hread]
  rfl

end

theorem colonAfter_append_singleton (afterColon : Bool) (front : List Token) (t : Token) :
    colonAfter afterColon (front ++ [t]) = decide (t.kind = .colon) := by
  simp [colonAfter]

namespace Grammar

theorem TermDerivation.exists_last (d : TermDerivation) :
    ∃ front last, d.leaves = front ++ [last] ∧ last.kind ≠ .colon := by
  match d with
  | .tag (.word w) => exact ⟨[], w.val, rfl, by rw [w.property]; nofun⟩
  | .tag (.negated dash w) => exact ⟨[dash.val], w.val, rfl, by rw [w.property]; nofun⟩
  | .block _ _ _ _ closing => exact ⟨_ :: _, closing.val, rfl, by rw [closing.property]; nofun⟩
  | .field _ _ _ value => exact ⟨_ :: _ :: _, value.val, rfl, by rw [value.property]; nofun⟩

/-- A query does not end in a colon. -/
theorem QueryDerivation.colonAfter_leaves (d : QueryDerivation) (afterColon : Bool) :
    colonAfter afterColon d.leaves = false := by
  obtain ⟨init, last, hterms⟩ : ∃ init last, d.terms = init ++ [last] :=
    ⟨_, _, (List.dropLast_concat_getLast (List.cons_ne_nil d.first d.others)).symm⟩
  obtain ⟨front, t, hleaves, hcolon⟩ := last.exists_last
  rw [leaves, hterms, List.flatMap_append, List.flatMap_singleton, hleaves, ← List.append_assoc,
    colonAfter_append_singleton]
  exact decide_eq_false hcolon

end Grammar

/-! ### Texts that go on -/

section

variable (first second : String) {space : String} (hne : space ≠ "")
  (hspace : ∀ c ∈ space.toList, isWhiteSpace c = true)

include hne hspace

/-- Behind white space the tokens of a text follow those before the end of the other one. -/
theorem exists_tokenize_append :
    ∃ tokens, tokenize (first ++ space ++ second) = beforeEnd (tokenize first) ++ tokens ∧
      Layout (first ++ space).utf8ByteSize (colonAfter false (beforeEnd (tokenize first)))
        second.toList tokens := by
  obtain ⟨tokens, hsecond⟩ := Layout.exists_layout (first ++ space).utf8ByteSize
    (colonAfter false (beforeEnd (tokenize first))) second.toList
  refine ⟨tokens, ?_, hsecond⟩
  have hfirst := layout_tokenize first
  rw [tokenize_eq first] at hfirst
  have hends : EndsWord (beforeEnd (tokenize first)) (space.toList ++ second.toList) := by
    intro t _ _ c hc
    cases hchars : space.toList with
    | nil => exact absurd (String.toList_eq_nil_iff.mp hchars) hne
    | cons d ds =>
        rw [hchars] at hc
        exact .inl (hspace c (hchars ▸ List.mem_of_mem_head? hc))
  rw [String.utf8ByteSize_append, ← utf8Length_toList space] at hsecond
  have hlayout := hfirst.append (hsecond.space_append hspace) hends
  have htext := tokenize_ofList hlayout
  rwa [String.ofList_append, String.ofList_append, String.ofList_toList, String.ofList_toList,
    String.ofList_toList, ← String.append_assoc] at htext

/-- Behind a query, a text has the tokens that it has on its own, only moved. -/
theorem tokenize_append_of_parse {q : Query} (hparse : Query.parse first = .ok q) :
    tokenize (first ++ space ++ second) = beforeEnd (tokenize first) ++
      (tokenize second).map (Token.moved ((first ++ space).utf8ByteSize + ·)) := by
  obtain ⟨d, hleaves, -⟩ := Query.ofTokens_eq_ok.mp hparse
  obtain ⟨tokens, htokens, hsecond⟩ := exists_tokenize_append first second hne hspace
  rw [← hleaves, d.colonAfter_leaves] at hsecond
  have hmoved := (layout_tokenize second).moved (first ++ space).utf8ByteSize
  rw [htokens, ← hsecond.tokens_eq, ← hmoved.tokens_eq, Nat.add_zero]

theorem exists_parse_append {q q' : Query} (hq : Query.parse first = .ok q)
    (hq' : Query.parse second = .ok q') :
    ∃ both, Query.parse (first ++ space ++ second) = .ok both ∧
      both.tree.topLevel = q.tree.topLevel ++
        q'.tree.topLevel.map (Node.moved ((first ++ space).utf8ByteSize + ·)) := by
  have htokens := tokenize_append_of_parse first second hne hspace hq
  obtain ⟨d, hleaves, rfl⟩ := Query.ofTokens_eq_ok.mp hq
  obtain ⟨d', hleaves', rfl⟩ := Query.ofTokens_eq_ok.mp hq'
  let both : QueryDerivation :=
    ⟨d.first, d.others ++ (d'.moved ((first ++ space).utf8ByteSize + ·)).terms⟩
  refine ⟨both.query, Query.ofTokens_eq_ok.mpr ⟨both, ?_, rfl⟩, ?_⟩
  · have hboth : both.leaves =
        d.leaves ++ (d'.moved ((first ++ space).utf8ByteSize + ·)).leaves := by
      rw [QueryDerivation.leaves, QueryDerivation.terms, ← List.cons_append, List.flatMap_append]
      rfl
    rw [hboth, d'.leaves_moved, htokens, beforeEnd_append fun _ => kind_ne_of_mem_beforeEnd,
      beforeEnd_map_moved, hleaves, hleaves']
  · simp [both, Query.topLevel_tree, Query.terms, QueryDerivation.query, QueryDerivation.moved,
      QueryDerivation.terms, TermDerivation.node_term, TermDerivation.node_moved]

theorem parse_append_of_first_error {e : ParseError} (h : Query.parse first = .error e)
    (hend : e.token.kind ≠ .endOfQuery) :
    Query.parse (first ++ space ++ second) = .error e := by
  obtain ⟨tokens, htokens, -⟩ := exists_tokenize_append first second hne hspace
  have hmore : beforeEnd (tokenize (first ++ space ++ second)) =
      beforeEnd (tokenize first) ++ beforeEnd tokens := by
    rw [htokens, beforeEnd_append fun _ => kind_ne_of_mem_beforeEnd]
  exact Query.ofTokens_eq_error_of_append hmore h hend

theorem parse_append_of_second_error {q : Query} {e : ParseError} (hq : Query.parse first = .ok q)
    (h : Query.parse second = .error e)
    (hnext : ∀ t ∈ (tokenize second).head?, t.kind ≠ .endOfQuery ∧ t.kind ≠ .colon) :
    Query.parse (first ++ space ++ second) =
      .error ⟨e.fault, e.token.moved ((first ++ space).utf8ByteSize + ·)⟩ := by
  have htokens := tokenize_append_of_parse first second hne hspace hq
  obtain ⟨d, hleaves, -⟩ := Query.ofTokens_eq_ok.mp hq
  obtain ⟨last, hlast, hkind⟩ := exists_endOfQuery_tokenize second
  unfold Query.parse at h ⊢
  rw [htokens, ← hleaves]
  generalize ((first ++ space).utf8ByteSize + ·) = move
  have hmoved := Query.ofTokens_map_moved_of_error move ⟨last, hlast, hkind⟩ h
  have hend : last.moved move ∈ (tokenize second).map (Token.moved move) :=
    List.mem_map_of_mem hlast
  cases hsecond : tokenize second with
  | nil =>
      rw [hsecond] at hlast
      cases hlast
  | cons next tokens =>
      rw [hsecond] at hmoved hend hnext
      exact Query.ofTokens_eq_error_behind d (hnext next rfl) ⟨last.moved move, hend, hkind⟩
        (fun t ht => kind_ne_of_mem_beforeEnd (hleaves ▸ ht)) hmoved

end

/-- A query and another text behind it, with white space between. If both are queries, then so are
they together, with the terms of the one and then those of the other, only moved. What is wrong with
the first before its end is wrong with both together. What is wrong with the second is wrong with
both together if the first is a query and the second begins with a token of a term. -/
theorem parse_append (first second : String) {space : String} (hne : space ≠ "")
    (hspace : ∀ c ∈ space.toList, isWhiteSpace c = true) :
    let text := first ++ space ++ second
    let move := ((first ++ space).utf8ByteSize + ·)
    (∀ q q', Query.parse first = .ok q → Query.parse second = .ok q' →
      ∃ both, Query.parse text = .ok both ∧
        both.tree.topLevel = q.tree.topLevel ++ q'.tree.topLevel.map (Node.moved move)) ∧
    (∀ e, Query.parse first = .error e → e.token.kind ≠ .endOfQuery →
      Query.parse text = .error e) ∧
    ∀ q e, Query.parse first = .ok q → Query.parse second = .error e →
      (∀ t ∈ (tokenize second).head?, t.kind ≠ .endOfQuery ∧ t.kind ≠ .colon) →
      Query.parse text = .error ⟨e.fault, e.token.moved move⟩ :=
  ⟨fun _ _ => exists_parse_append first second hne hspace,
    fun _ => parse_append_of_first_error first second hne hspace,
    fun _ _ => parse_append_of_second_error first second hne hspace⟩

/-- A white space of three bytes behind a query of one term, and behind a block that is not one. -/
theorem parse_append_of_wide_space :
    let space := "\u2003"
    space ≠ "" ∧ (∀ c ∈ space.toList, isWhiteSpace c = true) ∧
      (∃ both, Query.parse ("cat" ++ space ++ "\x7bé~-b\x7d x") = .ok both ∧
        both.tree.topLevel.map (·.token.position) = [0, 6, 14]) ∧
      Query.parse ("\x7ba~\x7d" ++ space ++ "b") =
        .error ⟨.danglingContinuation, ⟨.orEnd, "\x7d", 3⟩⟩ ∧
      Query.parse ("cat" ++ space ++ "-:") = .error ⟨.negationWithoutTag, ⟨.colon, ":", 7⟩⟩ := by
  intro space
  have hne : space ≠ "" := by decide
  have hspace : ∀ c ∈ space.toList, isWhiteSpace c = true := by
    rw [show space.toList = ['\u2003'] by decide +kernel]
    exact List.forall_mem_singleton.mpr rfl
  let cat : Query := ⟨.tag ⟨false, ⟨.word, "cat", 0⟩⟩, []⟩
  let block : Query :=
    ⟨.alternatives ⟨.orStart, "\x7b", 0⟩ ⟨false, ⟨.word, "é", 1⟩⟩ ⟨true, ⟨.word, "b", 5⟩⟩ [],
      [.tag ⟨false, ⟨.word, "x", 8⟩⟩]⟩
  have hcat : Query.parse "cat" = .ok cat := by decide +kernel
  have hblock : Query.parse "\x7bé~-b\x7d x" = .ok block := by decide +kernel
  have hdangling : Query.parse "\x7ba~\x7d" =
      .error ⟨.danglingContinuation, ⟨.orEnd, "\x7d", 3⟩⟩ := by
    decide +kernel
  have hdash : Query.parse "-:" = .error ⟨.negationWithoutTag, ⟨.colon, ":", 1⟩⟩ := by
    decide +kernel
  have htokens : tokenize "-:" =
      [⟨.negation, "-", 0⟩, ⟨.colon, ":", 1⟩, ⟨.endOfQuery, "", 2⟩] := by
    decide +kernel
  refine ⟨hne, hspace, ?_, ?_, ?_⟩
  · obtain ⟨both, hboth, hterms⟩ := (parse_append _ _ hne hspace).1 cat block hcat hblock
    exact ⟨both, hboth, by rw [hterms]; decide +kernel⟩
  · exact (parse_append _ "b" hne hspace).2.1 _ hdangling (by decide)
  · refine (parse_append "cat" _ hne hspace).2.2 cat _ hcat hdash ?_
    rw [htokens]
    rintro _ ⟨⟩
    decide

end TagQuery
