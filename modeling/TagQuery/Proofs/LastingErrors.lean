import TagQuery.Proofs.Precedence

/-!
Errors that last. What is wrong with a text comes back in every search for it, whoever asks and
whatever the services say, unless the tags cannot be looked up.
-/

namespace TagQuery

/-- What is wrong with a text: it does not parse, or its first term that cannot be read. -/
def textError? (text : String) : Option SearchError :=
  match Query.parse text with
  | .error e => some (.malformed e)
  | .ok q =>
    match q.clauses with
    | .error e => some (.compile (.term e))
    | .ok _ => none

/-- The lookup of a tag fails, or those of all tags take longer than the limit. -/
def Query.LosesTags (q : Query) (services : Services) (config : Config) : Prop :=
  (∃ name ∈ q.tagNames, ∃ text, (services.resolve name).result = .error text) ∨
    ∃ limit, config.lookupTimeout = some limit ∧
      limit.ticks < (Answer.together (q.tagAnswers services)).delay

section

variable {services : Services} {config : Config} {viewer : Viewer} {q : Query} {text : String}

theorem Answer.exists_failure_of_collect {α κ : Type} {answers : List (κ × Answer α)}
    (h : collect answers = .error text) :
    ∃ key answer, (key, answer) ∈ answers ∧ answer.result = .error text := by
  obtain ⟨before, ⟨key, answer⟩, after, rfl, -, hfails⟩ := mapM_eq_error_iff.mp h
  refine ⟨key, answer, List.mem_append_right _ List.mem_cons_self, ?_⟩
  dsimp only at hfails
  cases hresult : answer.result with
  | error own =>
      rw [hresult] at hfails
      cases hfails
      rfl
  | ok value =>
      rw [hresult] at hfails
      cases hfails

/-- The tags are lost exactly if the lookup of the tags as a whole gives nothing. -/
theorem Query.losesTags_iff : q.LosesTags services config ↔
    ∃ e, (Answer.together (q.tagAnswers services)).within config.lookupTimeout = .error e := by
  constructor
  · intro h
    cases hwithin : (Answer.together (q.tagAnswers services)).within config.lookupTimeout with
    | error e => exact ⟨e, rfl⟩
    | ok ids =>
        rcases h with ⟨name, hname, text, hfails⟩ | ⟨limit, hlimit, hlate⟩
        · have hcollect := Answer.together_eq_ok_iff.mp (Answer.result_of_within_eq_ok hwithin)
          cases hfails.symm.trans (TagTable.result_of_collect hcollect hname)
        · rw [hlimit, Answer.within, if_pos hlate] at hwithin
          cases hwithin
  · rintro ⟨e, he⟩
    by_cases htime : ∀ limit, config.lookupTimeout = some limit →
        (Answer.together (q.tagAnswers services)).delay ≤ limit.ticks
    · rw [Answer.within_eq_result htime] at he
      cases hcollect : Answer.collect (q.tagAnswers services) with
      | ok ids =>
          rw [Answer.together_eq_ok_iff.mpr hcollect] at he
          cases he
      | error text =>
          obtain ⟨name, _, hmem, hfails⟩ := Answer.exists_failure_of_collect hcollect
          obtain ⟨_, hname, heq⟩ := List.mem_map.mp hmem
          cases heq
          exact Or.inl ⟨name, hname, text, hfails⟩
    · push Not at htime
      exact Or.inr htime

theorem Query.LosesTags.outcome_eq (h : q.LosesTags services config) (viewer : Viewer) :
    ∃ e, (compile services config viewer q).outcome = .error (.lookup e) := by
  obtain ⟨e, he⟩ := Query.losesTags_iff.mp h
  rw [compile_eq_compileJoining, compileJoining_of_tags_error he]
  exact ⟨e, rfl⟩

theorem Query.draft_of_clauses_error {e : TermError} (h : q.clauses = .error e)
    (table : TagTable) : q.draft table = .error e := by
  rw [draft, h]
  rfl

/-- A compilation fails with the error of a term exactly if that is the first such error of the
query and the tags are not lost. -/
theorem compile_outcome_eq_term_iff {e : TermError} :
    (compile services config viewer q).outcome = .error (.term e) ↔
      q.clauses = .error e ∧ ¬q.LosesTags services config := by
  cases htags : (Answer.together (q.tagAnswers services)).within config.lookupTimeout with
  | error lost =>
      have hlost := Query.losesTags_iff.mpr ⟨lost, htags⟩
      rw [compile_eq_compileJoining, compileJoining_of_tags_error htags]
      simp only [Except.error.injEq, reduceCtorEq, hlost, not_true_eq_false, and_false]
  | ok ids =>
      have hfound : ¬q.LosesTags services config := by
        rw [Query.losesTags_iff, htags]
        rintro ⟨_, h⟩
        cases h
      rw [and_iff_left hfound, compile_eq_compileJoining]
      cases hclauses : q.clauses with
      | error first =>
          rw [compileJoining_of_draft_error htags (Query.draft_of_clauses_error hclauses _)]
          simp only [Except.error.injEq, CompileError.term.injEq]
      | ok clauses =>
          have hdraft : q.draft (SortedMap.ofList ids) = .ok ⟨clauses, .ofList ids⟩ := by
            rw [Query.draft, hclauses]
            rfl
          rw [compileJoining_of_draft htags hdraft]
          dsimp only
          unfold Draft.complete Draft.lookUpPreferences
          split
          · simp only [reduceCtorEq]
          · split <;> simp only [Except.error.injEq, reduceCtorEq]

theorem textError?_of_malformed {e : ParseError} (h : Query.parse text = .error e) :
    textError? text = some (.malformed e) := by
  unfold textError?
  rw [h]

theorem textError?_eq_some_iff {e : SearchError} (h : Query.parse text = .ok q) :
    textError? text = some e ↔ ∃ first, q.clauses = .error first ∧ .compile (.term first) = e := by
  unfold textError?
  rw [h]
  dsimp only
  cases q.clauses with
  | error first => simp only [Option.some.injEq, Except.error.injEq, exists_eq_left']
  | ok clauses => exact ⟨nofun, nofun⟩

theorem compileText_eq_error_iff {e : SearchError} (h : Query.parse text = .ok q) :
    compileText services config viewer text = .error e ↔
      ∃ cause, (compile services config viewer q).outcome = .error cause ∧ .compile cause = e := by
  rw [compileText_of_parse h]
  cases (compile services config viewer q).outcome with
  | error cause => simp only [Except.mapError, Except.error.injEq, exists_eq_left']
  | ok c => exact ⟨nofun, nofun⟩

/-- An error that is not retryable comes from the text alone. -/
theorem textError?_of_compileText {e : SearchError}
    (h : compileText services config viewer text = .error e) (hlasting : e.isRetryable = false) :
    textError? text = some e := by
  cases hparse : Query.parse text with
  | error parseError =>
      rw [compileText_of_malformed hparse] at h
      cases h
      exact textError?_of_malformed hparse
  | ok q =>
      obtain ⟨cause, houtcome, rfl⟩ := (compileText_eq_error_iff hparse).mp h
      cases cause with
      | lookup lost => cases hlasting
      | term first =>
          have hfirst := (compile_outcome_eq_term_iff.mp houtcome).1
          exact (textError?_eq_some_iff hparse).mpr ⟨first, hfirst, rfl⟩

/-- What is wrong with a text comes back from every compilation of it, unless the tags are lost. -/
theorem compileText_of_textError? {e : SearchError} (h : textError? text = some e) :
    compileText services config viewer text = .error e ↔
      ∀ q, Query.parse text = .ok q → ¬q.LosesTags services config := by
  cases hparse : Query.parse text with
  | error parseError =>
      cases (textError?_of_malformed hparse).symm.trans h
      exact iff_of_true (compileText_of_malformed hparse) fun _ hq => nomatch hq
  | ok q =>
      obtain ⟨first, hfirst, rfl⟩ := (textError?_eq_some_iff hparse).mp h
      rw [compileText_eq_error_iff hparse]
      simp only [SearchError.compile.injEq, exists_eq_right, compile_outcome_eq_term_iff, hfirst,
        true_and, Except.ok.injEq, forall_eq']

theorem Searcher.search_eq_error_iff {s : Searcher} {e : SearchError} :
    (s.search services viewer text).1 = .error e ↔
      s.cache.get? ⟨text, viewer⟩ = none ∧
        compileText services s.config viewer text = .error e := by
  unfold search
  dsimp only
  split
  next stored hhit =>
    rw [hhit]
    exact ⟨nofun, fun h => nomatch h.1⟩
  next hmiss =>
    rw [hmiss]
    split
    next own herror =>
      rw [herror]
      simp only [Except.error.injEq, true_and]
    next c hcompiled =>
      rw [hcompiled]
      exact ⟨nofun, fun h => nomatch h.2⟩

end

/-- An error that is not retryable is an error of the text. It comes back in another search, for any
viewer and under any services and settings, unless the tags are lost there, and if they are the
search fails for that. -/
theorem search_eq_error_of_not_isRetryable {s s' : Searcher} {services services' : Services}
    {viewer viewer' : Viewer} {text : String} {e : SearchError}
    (h : (s.search services viewer text).1 = .error e) (hlasting : e.isRetryable = false)
    (hmiss : s'.cache.get? ⟨text, viewer'⟩ = none) :
    textError? text = some e ∧
    (∀ parseError, e = .malformed parseError →
      (s'.search services' viewer' text).1 = .error (.malformed parseError)) ∧
    ∀ q, Query.parse text = .ok q →
      ((s'.search services' viewer' text).1 = .error e ↔ ¬q.LosesTags services' s'.config) ∧
      (q.LosesTags services' s'.config →
        ∃ lost, (s'.search services' viewer' text).1 = .error (.compile (.lookup lost))) := by
  have htext := textError?_of_compileText (Searcher.search_eq_error_iff.mp h).2 hlasting
  have hother (own : SearchError) : (s'.search services' viewer' text).1 = .error own ↔
      compileText services' s'.config viewer' text = .error own :=
    Searcher.search_eq_error_iff.trans (and_iff_right hmiss)
  refine ⟨htext, ?_, ?_⟩
  · rintro parseError rfl
    rw [hother, compileText_of_textError? htext]
    intro q hparse
    obtain ⟨_, _, heq⟩ := (textError?_eq_some_iff hparse).mp htext
    cases heq
  · intro q hparse
    rw [hother, compileText_of_textError? htext]
    constructor
    · simp only [hparse, Except.ok.injEq, forall_eq']
    · intro hlost
      obtain ⟨lost, houtcome⟩ := hlost.outcome_eq viewer'
      exact ⟨lost, (hother _).mpr ((compileText_eq_error_iff hparse).mpr ⟨_, houtcome, rfl⟩)⟩

/-- A field that does not exist is reported to another viewer as well, under other settings, where
the tag has an id and the preferences could not be looked up. -/
theorem search_eq_error_of_invalidField :
    let e : SearchError := .compile (.term (.invalidField "colour"))
    let s : Searcher := { config := {}, cache := .empty 4 }
    let s' : Searcher :=
      { config := { hideDeleted := false, lookupTimeout := some (.ofMilliseconds 7) }
        cache := .empty 1 }
    let services' : Services :=
      { resolve := fun _ => ⟨7, .ok (some 3)⟩, visibility := fun _ => ⟨0, .error "down"⟩ }
    (s.search Store.empty.services .anonymous "cat colour:red sort:cat").1 = .error e ∧
      e.isRetryable = false ∧ s'.cache.get? ⟨"cat colour:red sort:cat", .user 5⟩ = none ∧
      (s'.search services' (.user 5) "cat colour:red sort:cat").1 = .error e := by
  intro e s s' services'
  let q : Query :=
    ⟨.tag ⟨false, ⟨.word, "cat", 0⟩⟩,
      [.field ⟨⟨.word, "colour", 4⟩, ⟨.colon, ":", 10⟩, ⟨.implied, "=", 10⟩, ⟨.word, "red", 11⟩⟩,
        .field ⟨⟨.word, "sort", 15⟩, ⟨.colon, ":", 19⟩, ⟨.implied, "=", 19⟩, ⟨.word, "cat", 20⟩⟩]⟩
  have hparse : Query.parse "cat colour:red sort:cat" = .ok q := by decide +kernel
  have hnames : q.tagNames = ["cat"] := by decide +kernel
  have hsearch : (s.search Store.empty.services .anonymous "cat colour:red sort:cat").1 =
      .error e := by
    refine Searcher.search_eq_error_iff.mpr ⟨rfl, ?_⟩
    exact (compileText_eq_error_iff hparse).mpr ⟨_, by cbv, rfl⟩
  have hmiss : s'.cache.get? ⟨"cat colour:red sort:cat", .user 5⟩ = none := rfl
  obtain ⟨-, -, hother⟩ := search_eq_error_of_not_isRetryable hsearch rfl hmiss
  have hfound : ¬q.LosesTags services' s'.config := by
    rintro (⟨_, _, _, hfails⟩ | ⟨limit, hlimit, hlate⟩)
    · cases hfails
    · cases hlimit
      rw [Query.tagAnswers, hnames] at hlate
      revert hlate
      decide +kernel
  exact ⟨hsearch, rfl, hmiss, (hother q hparse).1.mpr hfound⟩

end TagQuery
