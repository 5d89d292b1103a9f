import TagQuery.Proofs.Parsing
import TagQuery.Proofs.Reading
import TagQuery.Proofs.Tokenization
import TagQuery.Store

/-!
Compilation preserves meaning: the condition that a query compiles to holds of the posts that the
query selects.
-/

namespace TagQuery

namespace Grammar

/-- The operators of a query are those that its tokens write, and the implied one. -/
theorem QueryDerivation.operator_cases {d : QueryDerivation} {t : FieldTerm}
    (h : Term.field t ∈ d.query.terms) :
    t.operator.value = "=" ∨ ∃ token ∈ d.leaves, token.kind = .operator ∧ token = t.operator := by
  obtain ⟨term, hterm, hfield⟩ : ∃ term ∈ d.terms, term.term = .field t := by
    exact List.mem_map.mp h
  cases term with
  | tag tag => cases hfield
  | block opening first second others closing => cases hfield
  | field name colon operator? value =>
      cases hfield
      cases operator? with
      | none => exact Or.inl rfl
      | some operator =>
          refine Or.inr ⟨operator.val, List.mem_flatMap.mpr ⟨_, hterm, ?_⟩, operator.property, rfl⟩
          simp [TermDerivation.leaves]

end Grammar

theorem FieldTerm.operatorKnown_of_parse {text : String} {q : Query} (h : Query.parse text = .ok q)
    {t : FieldTerm} (ht : Term.field t ∈ q.terms) : t.OperatorKnown := by
  obtain ⟨d, hleaves, rfl⟩ := Query.ofTokens_eq_ok.mp h
  rcases d.operator_cases ht with himplied | ⟨token, htoken, hkind, rfl⟩
  · rw [OperatorKnown, himplied]
    exact List.mem_cons_self
  · have hmem : t.operator ∈ tokenize text := by
      rw [hleaves] at htoken
      exact (List.takeWhile_subset _) htoken
    have hadmits := (isTokenization_tokenize text).admitted _ hmem
    rw [hkind] at hadmits
    obtain ⟨c, hc, hvalue⟩ := hadmits
    have hchars : ∀ c ∈ operatorChars, String.singleton c ∈ ["=", ">", "<", "!"] := by
      simp [operatorChars]
    rw [OperatorKnown, hvalue]
    exact hchars c hc

section

variable {services : Services} {config : Config} {viewer : Viewer} {q : Query} {d : Draft}
  {c : Compiled} {post : Post}

/-- The clauses of a draft say of a post what the terms of the query ask for. -/
theorem Query.DraftedAs.holds_clauses_iff (hd : q.DraftedAs services d)
    (hoperators : ∀ t, Term.field t ∈ q.terms → t.OperatorKnown) (legacyLessThan : Bool) :
    (∀ clause ∈ d.clauses, clause.Holds legacyLessThan d.table post) ↔
      ∀ t ∈ q.terms, t.Holds services legacyLessThan post := by
  refine (forall_mem_iff_of_forall₂ hd.clauses fun t ht clause hread => ?_).symm
  refine Term.holds_iff_of_clause (fun tag htag => ?_) (fun f hf => ?_) hread
  · exact hd.table _ (Query.mem_tagNames_iff.mpr ⟨t, ht, tag, htag, rfl⟩)
  · exact hoperators f (hf ▸ ht)

theorem Visibility.forall_hidden_iff (v : Visibility) (P : Rating → Prop) :
    (∀ rating ∈ v.hidden, P rating) ↔
      (v.hidesNotSafe = true → P .notSafe) ∧ (v.hidesExplicit = true → P .explicit) := by
  obtain ⟨hidesNotSafe, hidesExplicit⟩ := v
  cases hidesNotSafe <;> cases hidesExplicit <;> simp [hidden]

/-- The ratings that a draft leaves out are those that are hidden from the viewer, and none where the
query has a field for the rating. -/
theorem Query.DraftedAs.admits_rating_iff {visibility? : Option Visibility}
    (hd : q.DraftedAs services d)
    (h : (d.constrainsRating = true ∧ visibility? = none) ∨
      (d.constrainsRating = false ∧
        ∃ v, (services.visibility viewer).result = .ok v ∧ visibility? = some v)) :
    (∀ rating ∈ visibility?.elim [] Visibility.hidden,
      post.compares .rating .notEqual (.text rating.keyword)) ↔
      (¬q.HasField "rating" → ∃ v, (services.visibility viewer).result = .ok v ∧
        (v.hidesNotSafe = true → post.compares .rating .notEqual (.text "unsafe")) ∧
        (v.hidesExplicit = true → post.compares .rating .notEqual (.text "explicit"))) := by
  rcases h with ⟨hrating, rfl⟩ | ⟨hrating, v, hv, rfl⟩
  · exact iff_of_true nofun fun hnone => absurd (hd.constrainsRating_iff.mp hrating) hnone
  · have hnone : ¬q.HasField "rating" := fun hfield =>
      absurd (hd.constrainsRating_iff.mpr hfield) (Bool.eq_false_iff.mp hrating)
    have hhidden := v.forall_hidden_iff fun rating =>
      post.compares .rating .notEqual (.text rating.keyword)
    refine hhidden.trans ⟨fun hshown _ => ⟨v, hv, hshown⟩, fun hshown => ?_⟩
    obtain ⟨v', hv', hshown'⟩ := hshown hnone
    cases hv.symm.trans hv'
    exact hshown'

/-- A compiled query holds of the posts that the query selects. -/
theorem compiled_holds_iff_selects
    (hoperators : ∀ t, Term.field t ∈ q.terms → t.OperatorKnown)
    (h : (compile services config viewer q).outcome = .ok c) :
    c.Holds post ↔ q.Selects services config viewer post := by
  obtain ⟨d, visibility?, hd, rfl, hvisibility⟩ := compile_eq_ok h
  have hstatus : d.constrainsStatus = false ↔ ¬q.HasField "status" := by
    rw [← hd.constrainsStatus_iff, Bool.not_eq_true]
  rw [d.holds_finish_iff, hd.holds_clauses_iff hoperators, Draft.Admits,
    hd.admits_rating_iff hvisibility, hstatus]
  constructor
  · rintro ⟨hterms, hshown, hok⟩
    exact ⟨hterms, hshown, hok⟩
  · rintro ⟨hterms, hshown, hok⟩
    exact ⟨hterms, hshown, hok⟩

end

/-- The condition that a query text compiles to, read with its parameters, holds of a post exactly if
the query selects the post. -/
theorem compile_preserves_meaning {services : Services} {config : Config} {viewer : Viewer}
    {text : String} {q : Query} {c : Compiled} (hparse : Query.parse text = .ok q)
    (hcompile : (compile services config viewer q).outcome = .ok c) (post : Post) :
    c.Holds post ↔ q.Selects services config viewer post := by
  have hoperators : ∀ t, Term.field t ∈ q.terms → t.OperatorKnown := by
    intro t ht
    exact FieldTerm.operatorKnown_of_parse hparse ht
  exact compiled_holds_iff_selects hoperators hcompile

/-- A tag that is known, one that is not, and an account under the operator that is read as another,
for a visitor from whom ratings are hidden. -/
theorem compile_preserves_meaning_of_three_terms :
    let services := ({ Store.empty with tags := .ofList [("cat", 3)] } : Store).services
    ∃ q c, Query.parse "Cat -dog user:<7" = .ok q ∧
      (compile services {} .anonymous q).outcome = .ok c ∧
      ∀ post, c.Holds post ↔ q.Selects services {} .anonymous post := by
  intro services
  let q : Query :=
    ⟨.tag ⟨false, ⟨.word, "Cat", 0⟩⟩,
      [.tag ⟨true, ⟨.word, "dog", 5⟩⟩,
        .field ⟨⟨.word, "user", 9⟩, ⟨.colon, ":", 13⟩, ⟨.operator, "<", 14⟩, ⟨.word, "7", 15⟩⟩]⟩
  have hparse : Query.parse "Cat -dog user:<7" = .ok q := by decide +kernel
  have hcompile : ∃ c, (compile services {} .anonymous q).outcome = .ok c := ⟨_, by cbv⟩
  obtain ⟨c, hc⟩ := hcompile
  exact ⟨q, c, hparse, hc, fun post => compile_preserves_meaning hparse hc post⟩

end TagQuery
