import TagQuery.Proofs.ErrorSpots
import TagQuery.Proofs.LastingErrors
import TagQuery.Proofs.Seams

/-!
What a search reports of a malformed query. The token of the error is one of the tokens of the
text, so it stands in the text where the error says. It is the end of the query exactly if it is
empty, and exactly if it stands at the end.
-/

namespace TagQuery

open Grammar Text

theorem FailsAt.token_mem {finish : Token} {place : Place} {input : List Token} {e : ParseError}
    (h : FailsAt finish place input e) : e.token ∈ input ∨ e.token = finish := by
  induction h with
  | token | fieldName => exact .inl List.mem_cons_self
  | finish => exact .inr rfl
  | later _ _ ih => exact ih.imp_left (List.mem_cons_of_mem _)

/-- A text has an end, so that no other end has to be made up for it. -/
theorem endToken_tokenize_mem (text : String) : endToken (tokenize text) ∈ tokenize text := by
  rcases endToken_cases (tokenize text) with ⟨after, hsplit⟩ | ⟨hall, -⟩
  · have hmem : endToken (tokenize text) ∈
        beforeEnd (tokenize text) ++ endToken (tokenize text) :: after :=
      List.mem_append_right _ List.mem_cons_self
    rwa [← hsplit] at hmem
  · obtain ⟨t, ht, hend⟩ := exists_endOfQuery_tokenize text
    rw [hall] at ht
    exact absurd hend (kind_ne_of_mem_beforeEnd ht)

theorem Query.token_mem_of_parse_eq_error {text : String} {e : ParseError}
    (h : Query.parse text = .error e) : e.token ∈ tokenize text := by
  rcases (failsAt_of_ofTokens_eq_error h).token_mem with htoken | htoken
  · exact mem_tokenize_of_mem_beforeEnd htoken
  · rw [htoken]
    exact endToken_tokenize_mem text

theorem compileText_eq_malformed_iff {services : Services} {config : Config} {viewer : Viewer}
    {text : String} {e : ParseError} :
    compileText services config viewer text = .error (.malformed e) ↔
      Query.parse text = .error e := by
  constructor
  · intro h
    cases hparse : Query.parse text with
    | error e' =>
        rw [compileText_of_malformed hparse] at h
        cases h
        rfl
    | ok q =>
        rw [compileText_of_parse hparse] at h
        cases houtcome : (compile services config viewer q).outcome with
        | error e' => rw [houtcome] at h; cases h
        | ok c => rw [houtcome] at h; cases h
  · exact compileText_of_malformed

section

variable {text : String} {t : Token}

/-- A token is the part of the text that begins at its position. -/
theorem exists_eq_append_of_mem_tokenize (ht : t ∈ tokenize text) :
    ∃ before after : String,
      text = before ++ t.value ++ after ∧ before.utf8ByteSize = t.position := by
  obtain ⟨before, after, htext, hposition⟩ := (isTokenization_tokenize text).literal t ht
  refine ⟨String.ofList before, String.ofList after, String.toList_inj.mp ?_, ?_⟩
  · simpa using htext
  · rw [utf8ByteSize_ofList, ← hposition, Nat.zero_add]

theorem value_eq_empty_iff_of_mem_tokenize (ht : t ∈ tokenize text) :
    t.value = "" ↔ t.kind = .endOfQuery := by
  have hrules := isTokenization_tokenize text
  constructor
  · intro hvalue
    by_contra hkind
    exact hrules.nonempty t ht hkind hvalue
  · intro hkind
    have hadmits := hrules.admitted t ht
    rwa [hkind] at hadmits

theorem kind_eq_endOfQuery_iff_of_mem_tokenize (ht : t ∈ tokenize text) :
    t.kind = .endOfQuery ↔ t.position = text.utf8ByteSize := by
  constructor
  · intro hkind
    rw [tokenize_eq, List.mem_append, List.mem_singleton] at ht
    rcases ht with ht | rfl
    · exact absurd hkind (kind_ne_of_mem_beforeEnd ht)
    · rfl
  · intro hposition
    obtain ⟨before, after, htext, hbefore⟩ := exists_eq_append_of_mem_tokenize ht
    have hsize := congrArg String.utf8ByteSize htext
    rw [String.utf8ByteSize_append, String.utf8ByteSize_append, hbefore, hposition] at hsize
    exact (value_eq_empty_iff_of_mem_tokenize ht).mp (String.utf8ByteSize_eq_zero_iff.mp (by omega))

theorem kind_ne_implied_of_mem_tokenize (ht : t ∈ tokenize text) : t.kind ≠ .implied := by
  intro hkind
  have hadmits := (isTokenization_tokenize text).admitted t ht
  rwa [hkind] at hadmits

end

/-- A search that rejects a text as malformed reports the error of parsing it, and its token is one
of the tokens of the text: the part of the text at its position, and the end exactly if it is empty
and exactly if nothing follows its position. -/
theorem reported_token_mem_tokenize {s : Searcher} {services : Services} {viewer : Viewer}
    {text : String} {e : ParseError}
    (h : (s.search services viewer text).1 = .error (.malformed e)) :
    Query.parse text = .error e ∧
    (SearchError.malformed e).message =
      "malformed query near " ++ quoted e.token.value ++ " at " ++ Nat.repr e.token.position ++
        ": " ++ e.message ∧
    e.token ∈ tokenize text ∧
    (∃ before after : String,
      text = before ++ e.token.value ++ after ∧ before.utf8ByteSize = e.token.position) ∧
    (e.token.value = "" ↔ e.token.kind = .endOfQuery) ∧
    (e.token.kind = .endOfQuery ↔ e.token.position = text.utf8ByteSize) ∧
    e.token.kind ≠ .implied := by
  have hparse := compileText_eq_malformed_iff.mp (Searcher.search_eq_error_iff.mp h).2
  have htoken := Query.token_mem_of_parse_eq_error hparse
  exact ⟨hparse, rfl, htoken, exists_eq_append_of_mem_tokenize htoken,
    value_eq_empty_iff_of_mem_tokenize htoken, kind_eq_endOfQuery_iff_of_mem_tokenize htoken,
    kind_ne_implied_of_mem_tokenize htoken⟩

/-- White space and a letter of several bytes stand before the dash that is reported. -/
theorem reported_token_mem_tokenize_of_negated_value :
    let s : Searcher := { config := {}, cache := .empty 4 }
    let e : ParseError := ⟨.negatedFieldValue, ⟨.negation, "-", 6⟩⟩
    (s.search Store.empty.services .anonymous "\u3000é:- b").1 = .error (.malformed e) ∧
      e.token ∈ tokenize "\u3000é:- b" ∧
      ∃ before after : String,
        "\u3000é:- b" = before ++ "-" ++ after ∧ before.utf8ByteSize = 6 := by
  intro s e
  have hparse : Query.parse "\u3000é:- b" = .error e := by decide +kernel
  have hsearch : (s.search Store.empty.services .anonymous "\u3000é:- b").1 =
      .error (.malformed e) :=
    Searcher.search_eq_error_iff.mpr ⟨rfl, compileText_of_malformed hparse⟩
  obtain ⟨-, -, htoken, hstands, -⟩ := reported_token_mem_tokenize hsearch
  exact ⟨hsearch, htoken, hstands⟩

end TagQuery
