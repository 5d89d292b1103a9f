import Mathlib.Data.List.TakeWhile
import TagQuery.Proofs.Parsing
import TagQuery.Proofs.Viability

/-!
Where the parser reports an error: at the first token with which no query can go on, or at the end
of tokens that more would have to follow. Only the name of a field within a block is reported before
the colon that shows it to be one.
-/

namespace TagQuery

open Grammar

/-- Tokens that cannot be read on from a place, with the error that tells so. The error names the
token that leads nowhere, or the end where that comes too early. -/
inductive FailsAt (finish : Token) : Place → List Token → ParseError → Prop where
  | token {place : Place} {token : Token} {rest : List Token} (fault : Fault)
      (h : place.next token.kind = none) : FailsAt finish place (token :: rest) ⟨fault, token⟩
  | fieldName {place next : Place} {name colon : Token} {rest : List Token}
      (hname : name.kind = .word) (hcolon : colon.kind = .colon)
      (hnext : place.next .word = some next) (h : next.next .colon = none) :
      FailsAt finish place (name :: colon :: rest) ⟨.fieldInOr, name⟩
  | finish {place : Place} (fault : Fault) (h : ¬place.IsEnd) :
      FailsAt finish place [] ⟨fault, finish⟩
  | later {place next : Place} {token : Token} {rest : List Token} {e : ParseError}
      (hnext : place.next token.kind = some next) (h : FailsAt finish next rest e) :
      FailsAt finish place (token :: rest) e

namespace FailsAt

variable {finish : Token} {place next : Place} {input rest : List Token} {e : ParseError}

theorem of_follow (hfollow : place.follow input = some next) (h : FailsAt finish next rest e) :
    FailsAt finish place (input ++ rest) e := by
  induction input generalizing place with
  | nil =>
      cases hfollow
      exact h
  | cons token input ih =>
      obtain ⟨place', hnext, hfollow⟩ := Option.bind_eq_some_iff.mp hfollow
      exact later hnext (ih hfollow)

/-- That a field is negated makes no difference to where the error is. -/
theorem inBlock (h : FailsAt finish place input e) :
    FailsAt finish place input (Parser.inBlock e) := by
  induction h with
  | @token place token rest fault h =>
      unfold Parser.inBlock
      split
      · exact .token _ h
      · exact .token _ h
  | fieldName hname hcolon hnext h => exact .fieldName hname hcolon hnext h
  | finish fault h =>
      unfold Parser.inBlock
      split
      · exact .finish _ h
      · exact .finish _ h
  | later hnext _ ih => exact .later hnext ih

/-- What fails where another term is due fails after a word, unless the word is a field name. -/
theorem afterWord (hcolon : NoColon input) (h : FailsAt finish (.term false) input e) :
    FailsAt finish .afterWord input e := by
  have hnext {token : Token} {rest : List Token} (hcolon : NoColon (token :: rest)) :
      Place.afterWord.next token.kind = (Place.term false).next token.kind :=
    Place.next_afterWord (noColon_cons.mp hcolon) false
  cases h with
  | token fault h => exact .token fault ((hnext hcolon).trans h)
  | fieldName hname hkind hword h => exact .fieldName hname hkind hword h
  | finish fault h => exact absurd rfl h
  | later htoken h => exact .later ((hnext hcolon).trans htoken) h

/-- Tokens that fail do not lead to an end. -/
theorem not_isEnd (h : FailsAt finish place input e) (hfollow : place.follow input = some next) :
    ¬next.IsEnd := by
  induction h with
  | token fault h =>
      obtain ⟨_, hnext, -⟩ := Option.bind_eq_some_iff.mp hfollow
      cases h.symm.trans hnext
  | @fieldName _ _ name colon _ hname hcolon hword h =>
      obtain ⟨_, hnext, hfollow⟩ := Option.bind_eq_some_iff.mp hfollow
      rw [hname, hword] at hnext
      cases hnext
      obtain ⟨_, hnext, -⟩ := Option.bind_eq_some_iff.mp hfollow
      rw [hcolon, h] at hnext
      cases hnext
  | finish fault h =>
      cases hfollow
      exact h
  | later htoken _ ih =>
      obtain ⟨_, hnext, hfollow⟩ := Option.bind_eq_some_iff.mp hfollow
      cases htoken.symm.trans hnext
      exact ih hfollow

/-- A token that leads nowhere is the first such token, a field name stands before it, and the end
comes where more is due. -/
theorem spot (h : FailsAt finish place input e) :
    (∃ before after, input = before ++ e.token :: after ∧ place.follow before ≠ none ∧
      place.follow (before ++ [e.token]) = none) ∨
    (e.fault = .fieldInOr ∧ e.token.kind = .word ∧ ∃ before colon after,
      input = before ++ e.token :: colon :: after ∧ colon.kind = .colon ∧
      place.follow (before ++ [e.token]) ≠ none ∧
      place.follow (before ++ [e.token, colon]) = none) ∨
    (e.token = finish ∧ ∃ next, place.follow input = some next ∧ ¬next.IsEnd) := by
  induction h with
  | @token place token rest fault h =>
      refine Or.inl ⟨[], rest, rfl, Option.some_ne_none _, ?_⟩
      simp only [List.nil_append, Place.follow, h, Option.bind_none]
  | @fieldName place next name colon rest hname hcolon hnext h =>
      refine Or.inr (Or.inl ⟨rfl, hname, [], colon, rest, rfl, hcolon, ?_, ?_⟩)
      · simp only [List.nil_append, Place.follow, hname, hnext, Option.bind_some]
        exact Option.some_ne_none _
      · simp only [List.nil_append, Place.follow, hname, hnext, hcolon, h, Option.bind_some,
          Option.bind_none]
  | @finish place fault h => exact Or.inr (Or.inr ⟨rfl, place, rfl, h⟩)
  | @later place next token rest e hnext _ ih =>
      have hstep (tokens : List Token) : place.follow (token :: tokens) = next.follow tokens := by
        rw [Place.follow, hnext, Option.bind_some]
      rcases ih with ⟨before, after, rfl, hlead, hdead⟩ |
        ⟨hfault, hword, before, colon, after, rfl, hcolon, hlead, hdead⟩ |
        ⟨htoken, last, hlast, hend⟩
      · exact Or.inl ⟨token :: before, after, rfl, hstep before ▸ hlead, (hstep _).trans hdead⟩
      · exact Or.inr (Or.inl ⟨hfault, hword, token :: before, colon, after, rfl, hcolon,
          hstep (before ++ [e.token]) ▸ hlead, (hstep _).trans hdead⟩)
      · exact Or.inr (Or.inr ⟨htoken, last, (hstep rest).trans hlast, hend⟩)

end FailsAt

namespace Parser

variable {finish : Token} (hfinish : finish.kind ≠ .colon)

/-! ### Where each reader fails -/

include hfinish in
/-- The word after a dash is read at a place where a word can follow and a colon not. -/
theorem readNegated_failsAt {place next : Place} {input : List Token} {e : ParseError}
    (hword : place.next .word = some next) (hcolon : next.next .colon = none)
    (honly : ∀ kind, kind ≠ .word → place.next kind = none) (hend : ¬place.IsEnd)
    (h : readNegated finish input = .error e) : FailsAt finish place input e := by
  cases input with
  | nil =>
      cases h
      exact .finish _ hend
  | cons token rest =>
      unfold readNegated at h
      dsimp only at h
      split at h
      next hkind =>
        split at h
        next hnext =>
          cases h
          cases rest with
          | nil => exact absurd hnext hfinish
          | cons colon rest =>
              have hdead : next.next colon.kind = none := (congrArg next.next hnext).trans hcolon
              exact .later ((congrArg place.next hkind).trans hword) (.token _ hdead)
        next => cases h
      next hkind =>
        cases h
        exact .token _ (honly _ (by rw [hkind]; nofun))
      next hkind _ =>
        cases h
        exact .token _ (honly _ hkind)

include hfinish in
theorem readAlternative_failsAt {isFirst : Bool} {input : List Token} {e : ParseError}
    (h : readAlternative finish isFirst input = .error e) :
    FailsAt finish (.alternative isFirst) input e := by
  cases input with
  | nil =>
      cases h
      exact .finish _ id
  | cons token rest =>
      unfold readAlternative at h
      dsimp only at h
      split at h
      next hkind =>
        split at h
        next hcolon =>
          cases h
          cases rest with
          | nil => exact absurd hcolon hfinish
          | cons colon rest => exact .fieldName hkind hcolon rfl rfl
        next => cases h
      next hkind =>
        cases hnegated : readNegated finish rest with
        | ok found =>
            rw [hnegated] at h
            cases h
        | error e' =>
            rw [hnegated] at h
            cases h
            have hfails : FailsAt finish (.afterDashInBlock isFirst) rest e' :=
              readNegated_failsAt hfinish rfl rfl (by intro kind hword; cases kind <;> trivial) id
                hnegated
            exact .later (congrArg (Place.alternative isFirst).next hkind) hfails.inBlock
      all_goals
        cases h
        refine .token _ ?_
        simp_all [Place.next]

theorem readSeparator_failsAt {isFirst : Bool} {input : List Token} {e : ParseError}
    (h : readSeparator finish isFirst input = .error e) :
    FailsAt finish (.separator isFirst) input e := by
  cases input with
  | nil =>
      cases h
      exact .finish _ id
  | cons token rest =>
      unfold readSeparator at h
      dsimp only at h
      split at h
      next => cases h
      next hkind =>
        split at h
        next hfirst =>
          cases h
          rw [hfirst]
          exact .token _ (congrArg (Place.separator true).next hkind)
        next => cases h
      next hkind =>
        cases h
        exact .token _ (congrArg (Place.separator isFirst).next hkind)
      next =>
        cases h
        refine .token _ ?_
        cases isFirst <;> simp_all [Place.next]

include hfinish in
/-- An alternative leads to the separator that is due after it. -/
theorem follow_of_readAlternative {isFirst : Bool} {input rest : List Token} {t : TagTerm}
    (h : readAlternative finish isFirst input = .ok (t, rest)) :
    ∃ front, input = front ++ rest ∧
      (Place.alternative isFirst).follow front = some (.separator isFirst) := by
  obtain ⟨d, rfl, -, -⟩ := (readAlternative_eq_ok hfinish).mp h
  exact ⟨d.leaves, rfl, d.follow_alternative isFirst⟩

theorem next_of_readSeparator {isFirst more : Bool} {input rest : List Token}
    (h : readSeparator finish isFirst input = .ok (more, rest)) :
    ∃ token, input = token :: rest ∧ (Place.separator isFirst).next token.kind =
      some (if more then .alternative false else .term false) := by
  rcases readSeparator_eq_ok.mp h with ⟨rfl, token, rfl⟩ | ⟨rfl, rfl, token, rfl⟩
  · exact ⟨token.val, rfl, congrArg (Place.separator isFirst).next token.property⟩
  · exact ⟨token.val, rfl, congrArg (Place.separator false).next token.property⟩

include hfinish in
theorem readOthers_failsAt {input : List Token} {e : ParseError}
    (h : readOthers finish input = .error e) : FailsAt finish (.alternative false) input e := by
  fun_induction readOthers finish input with
  | case1 input e' halternative =>
      cases h
      exact readAlternative_failsAt hfinish halternative
  | case2 input t rest halternative e' hseparator =>
      cases h
      obtain ⟨front, rfl, hfront⟩ := follow_of_readAlternative hfinish halternative
      exact .of_follow hfront (readSeparator_failsAt hseparator)
  | case3 => cases h
  | case4 input t rest halternative rest' hseparator e' hothers ih =>
      cases h
      obtain ⟨front, rfl, hfront⟩ := follow_of_readAlternative hfinish halternative
      obtain ⟨token, rfl, hnext⟩ := next_of_readSeparator hseparator
      exact .of_follow hfront (.later hnext (ih hothers))
  | case5 => cases h

include hfinish in
theorem readBlock_failsAt {opening : Token} {input : List Token} {e : ParseError}
    (h : readBlock finish opening input = .error e) :
    FailsAt finish (.alternative true) input e := by
  unfold readBlock at h
  split at h
  next halternative =>
    cases h
    exact readAlternative_failsAt hfinish halternative
  next first rest halternative =>
    obtain ⟨front, rfl, hfront⟩ := follow_of_readAlternative hfinish halternative
    refine .of_follow hfront ?_
    split at h
    next hseparator =>
      cases h
      exact readSeparator_failsAt hseparator
    next more rest' hseparator =>
      obtain ⟨separator, rfl⟩ : ∃ separator : Leaf .orContinue, rest = separator.val :: rest' := by
        rcases readSeparator_eq_ok.mp hseparator with ⟨-, hmore⟩ | ⟨-, hfirst, -⟩
        · exact hmore
        · cases hfirst
      split at h
      next hothers =>
        cases h
        exact .later (congrArg (Place.separator true).next separator.property)
          (readOthers_failsAt hfinish hothers)
      next => cases h

theorem readField_failsAt {name colon : Token} {input : List Token} {e : ParseError}
    (h : readField finish name colon input = .error e) : FailsAt finish .afterColon input e := by
  have hvalue (place : Place) (hend : ¬place.IsEnd)
      (honly : ∀ value ∈ (readOperator colon input).2.head?, value.kind ≠ .word →
        place.next value.kind = none) :
      FailsAt finish place (readOperator colon input).2 e := by
    unfold readField at h
    dsimp only at h
    split at h
    next hnil =>
      cases h
      rw [hnil]
      exact .finish _ hend
    next value rest hcons =>
      rw [hcons] at honly ⊢
      split at h
      next => cases h
      next hkind =>
        cases h
        exact .token _ (honly value rfl (by rw [hkind]; decide))
      next hword _ =>
        cases h
        exact .token _ (honly value rfl hword)
  cases input with
  | nil => exact hvalue .afterColon id fun _ hmem => absurd hmem (Option.not_mem_none _)
  | cons token rest =>
      unfold readOperator at hvalue
      dsimp only at hvalue
      by_cases hkind : token.kind = .operator
      · rw [if_pos hkind] at hvalue
        refine .later (congrArg Place.afterColon.next hkind) (hvalue .afterOperator id ?_)
        intro value _ hword
        exact Place.next_afterOperator hword
      · rw [if_neg hkind] at hvalue
        refine hvalue .afterColon id ?_
        rintro value ⟨⟩ hword
        exact Place.next_afterColon hkind hword

include hfinish in
theorem readTerm_failsAt {token : Token} {input : List Token} {e : ParseError}
    (h : readTerm finish token input = .error e) (isFirst : Bool) :
    FailsAt finish (.term isFirst) (token :: input) e := by
  unfold readTerm at h
  split at h
  next hword =>
    split at h
    next => cases h
    next next rest =>
      split at h
      next hcolon =>
        cases hfield : readField finish token next rest with
        | ok found =>
            rw [hfield] at h
            cases h
        | error e' =>
            rw [hfield] at h
            cases h
            exact .later (congrArg (Place.term isFirst).next hword)
              (.later (congrArg Place.afterWord.next hcolon) (readField_failsAt hfield))
      next => cases h
  next hdash =>
    cases hnegated : readNegated finish input with
    | ok found =>
        rw [hnegated] at h
        cases h
    | error e' =>
        rw [hnegated] at h
        cases h
        have hfails : FailsAt finish .afterDash input e :=
          readNegated_failsAt hfinish rfl rfl (by intro kind hword; cases kind <;> trivial) id
            hnegated
        exact .later (congrArg (Place.term isFirst).next hdash) hfails
  next hopening =>
    exact .later (congrArg (Place.term isFirst).next hopening) (readBlock_failsAt hfinish h)
  all_goals
    cases h
    refine .token _ ?_
    simp_all [Place.next, Place.beginTerm]

include hfinish in
/-- A term that is read leads to a place where another term can begin. A colon can follow there only
if the term is a word, and then it does not. -/
theorem follow_of_readTerm {token : Token} {input rest : List Token} {t : Term}
    (h : readTerm finish token input = .ok (t, rest)) (isFirst : Bool) :
    ∃ front next, token :: input = front ++ rest ∧ (Place.term isFirst).follow front = some next ∧
      (next = .term false ∨ next = .afterWord ∧ NoColon rest) := by
  obtain ⟨d, hinput, hterm⟩ := readTerm_sound hfinish h
  refine ⟨d.leaves, d.place, hinput, d.follow_term isFirst, ?_⟩
  match d with
  | .tag (.negated _ _) | .block .. | .field .. => exact Or.inl rfl
  | .tag (.word w) =>
      obtain ⟨rfl, rfl⟩ := List.cons.inj hinput
      refine Or.inr ⟨rfl, fun colon hhead hcolon => ?_⟩
      obtain ⟨tail, rfl⟩ := List.head?_eq_some_iff.mp hhead
      simp only [readTerm, w.property, if_pos hcolon] at h
      cases hfield : readField finish w.val colon tail with
      | error e =>
          rw [hfield] at h
          cases h
      | ok found =>
          obtain ⟨field, rest⟩ := found
          rw [hfield] at h
          cases h
          cases hterm

include hfinish in
theorem readTerms_failsAt {input : List Token} {e : ParseError}
    (h : readTerms finish input = .error e) (isFirst : Bool) :
    FailsAt finish (.term isFirst) input e := by
  fun_induction readTerms finish input generalizing isFirst with
  | case1 => cases h
  | case2 token input e' hterm =>
      cases h
      exact readTerm_failsAt hfinish hterm isFirst
  | case3 token input t rest hterm e' hterms ih =>
      cases h
      obtain ⟨front, next, hinput, hfront, hnext⟩ := follow_of_readTerm hfinish hterm isFirst
      rw [hinput]
      refine .of_follow hfront ?_
      rcases hnext with rfl | ⟨rfl, hcolon⟩
      · exact ih hterms false
      · exact (ih hterms false).afterWord hcolon
  | case4 => cases h

end Parser

namespace Grammar

/-- What the places accept is read, so that the grammar derives it. -/
theorem derives_of_follow {tokens : List Token} {place : Place}
    (hfollow : (Place.term true).follow tokens = some place) (hend : place.IsEnd) :
    Derives query tokens := by
  have hfinish : (Token.endAt 0).kind ≠ .colon := nofun
  cases hread : Parser.readTerms (Token.endAt 0) tokens with
  | error e =>
      exact absurd hend ((Parser.readTerms_failsAt hfinish hread true).not_isEnd hfollow)
  | ok terms =>
      obtain ⟨ds, rfl, -⟩ := (Parser.readTerms_eq_ok hfinish).mp hread
      cases ds with
      | nil =>
          cases hfollow
          cases hend
      | cons first others => exact (derives_query _).mpr ⟨⟨first, others⟩, rfl⟩

theorem viable_iff_follow {tokens : List Token} :
    Viable tokens ↔ (Place.term true).follow tokens ≠ none := by
  constructor
  · rintro ⟨rest, hrest⟩ hnone
    obtain ⟨place, hplace, -⟩ := exists_follow_of_derives hrest
    rw [Place.follow_append, hnone] at hplace
    cases hplace
  · intro hsome
    obtain ⟨place, hplace⟩ := Option.ne_none_iff_exists'.mp hsome
    obtain ⟨rest, last, hlast, hend⟩ := place.exists_follow_isEnd
    refine ⟨rest, derives_of_follow ?_ hend⟩
    rw [Place.follow_append, hplace, Option.bind_some, hlast]

theorem not_viable_iff_follow {tokens : List Token} :
    ¬Viable tokens ↔ (Place.term true).follow tokens = none := by
  rw [viable_iff_follow, not_not]

end Grammar

/-- An end of the query is among the tokens, after those that count, or it is made up at the offset
where the last of them stops. -/
theorem endToken_cases (tokens : List Token) :
    (∃ after, tokens = beforeEnd tokens ++ endToken tokens :: after) ∨
      (tokens = beforeEnd tokens ∧
        endToken tokens = Token.endAt ((tokens.getLast?.map Token.stop).getD 0)) := by
  unfold endToken
  split
  next token hfind =>
    obtain ⟨hend, before, after, rfl, hbefore⟩ := List.find?_eq_some_iff_append.mp hfind
    refine Or.inl ⟨after, ?_⟩
    rw [beforeEnd, List.takeWhile_append_of_pos (by simpa using hbefore),
      List.takeWhile_cons_of_neg (by simpa using hend), List.append_nil]
  next hfind =>
    refine Or.inr ⟨(List.takeWhile_eq_self_iff.mpr ?_).symm, rfl⟩
    simpa using List.find?_eq_none.mp hfind

theorem Query.failsAt_of_ofTokens_eq_error {tokens : List Token} {e : ParseError}
    (h : Query.ofTokens tokens = .error e) :
    FailsAt (endToken tokens) (.term true) (beforeEnd tokens) e := by
  have hfinish : (endToken tokens).kind ≠ .colon := by
    rw [endToken_kind]
    nofun
  unfold ofTokens at h
  dsimp only at h
  split at h
  next hread =>
    cases h
    exact Parser.readTerms_failsAt hfinish hread true
  next hread =>
    cases h
    obtain ⟨ds, hleaves, hds⟩ := (Parser.readTerms_eq_ok hfinish).mp hread
    rw [List.map_eq_nil_iff.mp hds] at hleaves
    rw [← hleaves]
    exact .finish _ nofun
  next => cases h

/-- The token of an error is the one at which the tokens before the end of the query become
impossible to complete. -/
inductive ErrorSpot (tokens : List Token) (e : ParseError) : Prop where
  /-- The tokens before it are the beginning of a query, and with it they no longer are. -/
  | token {before after : List Token} (hsplit : beforeEnd tokens = before ++ e.token :: after)
      (hbefore : Viable before) (htoken : ¬Viable (before ++ [e.token]))
  /-- A word within a block is reported for the colon after it, with which the tokens are no longer
  the beginning of a query. -/
  | fieldName {before after : List Token} {colon : Token}
      (hsplit : beforeEnd tokens = before ++ e.token :: colon :: after)
      (hfault : e.fault = .fieldInOr) (hword : e.token.kind = .word) (hcolon : colon.kind = .colon)
      (hname : Viable (before ++ [e.token])) (hdead : ¬Viable (before ++ [e.token, colon]))
  /-- The end of the query, one of the tokens or made up where the last of them stops, is reported
  if the tokens are the beginning of a query but none themselves. -/
  | finish
      (htoken : (∃ after, tokens = beforeEnd tokens ++ e.token :: after ∧
          e.token.kind = .endOfQuery) ∨
        (tokens = beforeEnd tokens ∧
          e.token = Token.endAt ((tokens.getLast?.map Token.stop).getD 0)))
      (hviable : Viable (beforeEnd tokens)) (hquery : ¬Derives query (beforeEnd tokens))

/-- Tokens that spell no query are reported at the first one with which that shows. -/
theorem errorSpot_of_ofTokens_eq_error {tokens : List Token} {e : ParseError}
    (h : Query.ofTokens tokens = .error e) : ErrorSpot tokens e := by
  rcases (Query.failsAt_of_ofTokens_eq_error h).spot with
    ⟨before, after, hsplit, hlead, hdead⟩ |
    ⟨hfault, hword, before, colon, after, hsplit, hcolon, hlead, hdead⟩ |
    ⟨htoken, last, hlast, hend⟩
  · exact .token hsplit (viable_iff_follow.mpr hlead) (not_viable_iff_follow.mpr hdead)
  · exact .fieldName hsplit hfault hword hcolon (viable_iff_follow.mpr hlead)
      (not_viable_iff_follow.mpr hdead)
  · refine .finish ?_ (viable_iff_follow.mpr ?_) ?_
    · rw [htoken]
      exact (endToken_cases tokens).imp_left fun ⟨after, hafter⟩ =>
        ⟨after, hafter, endToken_kind tokens⟩
    · rw [hlast]
      exact Option.some_ne_none last
    · intro hderives
      obtain ⟨place, hplace, hplaceEnd⟩ := exists_follow_of_derives hderives
      cases hlast.symm.trans hplace
      exact hend hplaceEnd

/-- A negated field in a block that is not closed, among tokens without an end. -/
theorem errorSpot_of_negated_field_in_block :
    let tokens : List Token :=
      [⟨.orStart, "\x7b", 0⟩, ⟨.word, "a", 1⟩, ⟨.orContinue, "~", 3⟩, ⟨.negation, "-", 5⟩,
        ⟨.word, "b", 6⟩, ⟨.colon, ":", 7⟩, ⟨.word, "c", 8⟩]
    Query.ofTokens tokens = .error ⟨.fieldInOr, ⟨.colon, ":", 7⟩⟩ ∧
      ErrorSpot tokens ⟨.fieldInOr, ⟨.colon, ":", 7⟩⟩ :=
  have h : Query.ofTokens _ = .error _ := by decide +kernel
  ⟨h, errorSpot_of_ofTokens_eq_error h⟩

end TagQuery
