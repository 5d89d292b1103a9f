import TagQuery.Proofs.Joining
import TagQuery.Proofs.Reading

/-!
Which of several outcomes a compilation has. A lookup of a tag that fails or is late comes before
all else, then a term that cannot be read, then the preferences. How the lookups of tags are joined
is left open here, as long as they run at once and end with the failure that comes first in time.
-/

namespace TagQuery

/-- The first of the terms that cannot be read cannot be for this reason. -/
def Query.IsFirstError (q : Query) (e : TermError) : Prop :=
  ∃ before t after, q.terms = before ++ t :: after ∧
    (∀ t' ∈ before, ∃ clause, t'.clause = .ok clause) ∧ t.clause = .error e

/-- The terms of a query as they are read. -/
def Query.ReadsAs (q : Query) (clauses : List Clause) : Prop :=
  List.Forall₂ (fun t clause => t.clause = .ok clause) q.terms clauses

/-- What becomes of the lookups of the tags under a limit. -/
def Query.TagsEndAs (q : Query) (services : Services) (ms? : Option Nat)
    (outcome : Except LookupError (List (String × Option Id))) : Prop :=
  ∃ batch, Answer.EndsAs (q.tagAnswers services) batch ∧ batch.EndsWithin ms? outcome

/-- Which outcome a compilation has, and what it has asked by then. The tags come first, then the
terms, then the preferences, which are not asked for where a field names a rating. Each of the two
lookups has the whole of the limit. -/
inductive Query.Decides (q : Query) (services : Services) (config : Config) (viewer : Viewer)
    (ms? : Option Nat) : Compilation → Prop
  | tagsNotFound {e : LookupError} (htags : q.TagsEndAs services ms? (.error e)) :
      Decides q services config viewer ms? ⟨.error (.lookup e), q.tagNames, []⟩
  | misread {ids : List (String × Option Id)} {e : TermError}
      (htags : q.TagsEndAs services ms? (.ok ids)) (hfirst : q.IsFirstError e) :
      Decides q services config viewer ms? ⟨.error (.term e), q.tagNames, []⟩
  | rated {ids : List (String × Option Id)} {clauses : List Clause}
      (htags : q.TagsEndAs services ms? (.ok ids)) (hread : q.ReadsAs clauses)
      (hrating : q.HasField "rating") :
      Decides q services config viewer ms?
        ⟨.ok (Draft.finish ⟨clauses, .ofList ids⟩ config none), q.tagNames, []⟩
  | preferencesNotFound {ids : List (String × Option Id)} {clauses : List Clause}
      {e : LookupError} (htags : q.TagsEndAs services ms? (.ok ids)) (hread : q.ReadsAs clauses)
      (hrating : ¬q.HasField "rating")
      (hpreferences : (services.visibility viewer).EndsWithin ms? (.error e)) :
      Decides q services config viewer ms? ⟨.error (.lookup e), q.tagNames, [viewer]⟩
  | compiled {ids : List (String × Option Id)} {clauses : List Clause} {visibility : Visibility}
      (htags : q.TagsEndAs services ms? (.ok ids)) (hread : q.ReadsAs clauses)
      (hrating : ¬q.HasField "rating")
      (hpreferences : (services.visibility viewer).EndsWithin ms? (.ok visibility)) :
      Decides q services config viewer ms?
        ⟨.ok (Draft.finish ⟨clauses, .ofList ids⟩ config (some visibility)), q.tagNames, [viewer]⟩

/-- How the lookups of tags are joined. -/
abbrev Join :=
  List (String × Answer (Option Id)) → Answer (List (String × Option Id))

/-- The compilation under any way to join the lookups of tags. -/
def compileJoining (join : Join) (services : Services) (config : Config) (viewer : Viewer)
    (q : Query) : Compilation :=
  match (join (q.tagAnswers services)).within config.lookupTimeout with
  | .error e => ⟨.error (.lookup e), q.tagNames, []⟩
  | .ok ids =>
    match q.draft (SortedMap.ofList ids) with
    | .error e => ⟨.error (.term e), q.tagNames, []⟩
    | .ok draft =>
      if draft.constrainsRating then ⟨.ok (draft.finish config none), q.tagNames, []⟩
      else
        match (services.visibility viewer).within config.lookupTimeout with
        | .error e => ⟨.error (.lookup e), q.tagNames, [viewer]⟩
        | .ok visibility => ⟨.ok (draft.finish config (some visibility)), q.tagNames, [viewer]⟩

theorem compile_eq_compileJoining (services : Services) (config : Config) (viewer : Viewer)
    (q : Query) : compile services config viewer q =
      compileJoining Answer.together services config viewer q :=
  rfl

section

variable {join : Join} {services : Services} {config : Config} {viewer : Viewer} {q : Query}
  {ms? : Option Nat}

theorem compileJoining_of_tags_error {e : LookupError}
    (htags : (join (q.tagAnswers services)).within config.lookupTimeout = .error e) :
    compileJoining join services config viewer q = ⟨.error (.lookup e), q.tagNames, []⟩ := by
  unfold compileJoining
  rw [htags]

section

variable {ids : List (String × Option Id)}
  (htags : (join (q.tagAnswers services)).within config.lookupTimeout = .ok ids)

include htags

theorem compileJoining_of_draft_error {e : TermError} (hdraft : q.draft (.ofList ids) = .error e) :
    compileJoining join services config viewer q = ⟨.error (.term e), q.tagNames, []⟩ := by
  unfold compileJoining
  rw [htags]
  dsimp only
  rw [hdraft]

theorem compileJoining_of_draft {d : Draft} (hdraft : q.draft (.ofList ids) = .ok d) :
    compileJoining join services config viewer q =
      ⟨d.complete (services.visibility viewer) config, q.tagNames,
        if d.constrainsRating then [] else [viewer]⟩ := by
  unfold compileJoining
  rw [htags]
  dsimp only
  rw [hdraft]
  unfold Draft.complete Draft.lookUpPreferences
  dsimp only
  split
  · rfl
  · cases (services.visibility viewer).within config.lookupTimeout with
    | error e => rfl
    | ok visibility => rfl

end

theorem Query.draft_eq_error_iff {table : TagTable} {e : TermError} :
    q.draft table = .error e ↔ q.IsFirstError e := by
  rw [IsFirstError, ← mapM_eq_error_iff]
  show q.clauses.map _ = .error e ↔ q.clauses = .error e
  cases q.clauses with
  | error e' => simp only [Except.map, Except.error.injEq]
  | ok clauses => exact ⟨nofun, nofun⟩

theorem Query.draft_eq_ok_iff {table : TagTable} {d : Draft} :
    q.draft table = .ok d ↔ q.ReadsAs d.clauses ∧ d.table = table := by
  rw [draft, map_eq_ok_iff, ReadsAs, ← mapM_eq_ok_iff]
  constructor
  · rintro ⟨clauses, hclauses, rfl⟩
    exact ⟨hclauses, rfl⟩
  · rintro ⟨hclauses, rfl⟩
    exact ⟨d.clauses, hclauses, rfl⟩

theorem Query.ReadsAs.draft_eq {clauses : List Clause} (h : q.ReadsAs clauses) (table : TagTable) :
    q.draft table = .ok ⟨clauses, table⟩ :=
  Query.draft_eq_ok_iff.mpr ⟨h, rfl⟩

theorem Answer.RunsAtOnce.tagsEndAs_iff (hjoin : RunsAtOnce join)
    (hlimit : config.lookupTimeout = ms?.map .ofMilliseconds)
    {outcome : Except LookupError (List (String × Option Id))} :
    q.TagsEndAs services ms? outcome ↔
      (join (q.tagAnswers services)).within config.lookupTimeout = outcome := by
  rw [within_eq_iff_endsWithin hlimit]
  constructor
  · rintro ⟨batch, hbatch, houtcome⟩
    rw [(hjoin _).unique hbatch]
    exact houtcome
  · exact fun houtcome => ⟨_, hjoin _, houtcome⟩

theorem Query.ReadsAs.constrainsRating_iff {clauses : List Clause}
    {ids : List (String × Option Id)} (hread : q.ReadsAs clauses)
    (htags : q.TagsEndAs services ms? (.ok ids)) :
    (Draft.mk clauses (.ofList ids)).constrainsRating = true ↔ q.HasField "rating" := by
  obtain ⟨batch, hbatch, hfound⟩ := htags
  have hall : Answer.AllSucceed (q.tagAnswers services) ids := by
    cases hfound with
    | found _ hresult => exact hbatch.allSucceed_of_result hresult
  exact (Query.draftedAs_of_draft (Answer.collect_eq_ok_iff.mpr hall)
    (hread.draft_eq _)).constrainsRating_iff

/-- A compilation has one of the outcomes. -/
theorem Query.decides_compileJoining (hjoin : Answer.RunsAtOnce join)
    (hlimit : config.lookupTimeout = ms?.map .ofMilliseconds) :
    q.Decides services config viewer ms? (compileJoining join services config viewer q) := by
  cases htags : (join (q.tagAnswers services)).within config.lookupTimeout with
  | error e =>
      rw [compileJoining_of_tags_error htags]
      exact .tagsNotFound ((hjoin.tagsEndAs_iff hlimit).mpr htags)
  | ok ids =>
      have hfound := (hjoin.tagsEndAs_iff hlimit).mpr htags
      cases hdraft : q.draft (SortedMap.ofList ids) with
      | error e =>
          rw [compileJoining_of_draft_error htags hdraft]
          exact .misread hfound (Query.draft_eq_error_iff.mp hdraft)
      | ok d =>
          rw [compileJoining_of_draft htags hdraft]
          obtain ⟨clauses, table⟩ := d
          obtain ⟨hread, rfl⟩ := Query.draft_eq_ok_iff.mp hdraft
          have hrating := hread.constrainsRating_iff hfound
          unfold Draft.complete Draft.lookUpPreferences
          by_cases hconstrains : Draft.constrainsRating ⟨clauses, .ofList ids⟩ = true
          · rw [if_pos hconstrains, if_pos hconstrains]
            exact .rated hfound hread (hrating.mp hconstrains)
          · rw [if_neg hconstrains, if_neg hconstrains]
            replace hrating := mt hrating.mpr hconstrains
            cases hpreferences : (services.visibility viewer).within config.lookupTimeout with
            | error e =>
                exact .preferencesNotFound hfound hread hrating
                  ((Answer.within_eq_iff_endsWithin hlimit).mp hpreferences)
            | ok visibility =>
                exact .compiled hfound hread hrating
                  ((Answer.within_eq_iff_endsWithin hlimit).mp hpreferences)

/-- A compilation has no other outcome. -/
theorem Query.Decides.eq_compileJoining {c : Compilation}
    (h : q.Decides services config viewer ms? c) (hjoin : Answer.RunsAtOnce join)
    (hlimit : config.lookupTimeout = ms?.map .ofMilliseconds) :
    compileJoining join services config viewer q = c := by
  cases h with
  | tagsNotFound htags =>
      exact compileJoining_of_tags_error ((hjoin.tagsEndAs_iff hlimit).mp htags)
  | misread htags hfirst =>
      exact compileJoining_of_draft_error ((hjoin.tagsEndAs_iff hlimit).mp htags)
        (Query.draft_eq_error_iff.mpr hfirst)
  | rated htags hread hrating =>
      have hconstrains := (hread.constrainsRating_iff htags).mpr hrating
      rw [compileJoining_of_draft ((hjoin.tagsEndAs_iff hlimit).mp htags) (hread.draft_eq _),
        Draft.complete, if_pos hconstrains, if_pos hconstrains]
  | preferencesNotFound htags hread hrating hpreferences =>
      have hconstrains := mt (hread.constrainsRating_iff htags).mp hrating
      rw [compileJoining_of_draft ((hjoin.tagsEndAs_iff hlimit).mp htags) (hread.draft_eq _),
        Draft.complete, if_neg hconstrains, if_neg hconstrains, Draft.lookUpPreferences,
        (Answer.within_eq_iff_endsWithin hlimit).mpr hpreferences]
  | compiled htags hread hrating hpreferences =>
      have hconstrains := mt (hread.constrainsRating_iff htags).mp hrating
      rw [compileJoining_of_draft ((hjoin.tagsEndAs_iff hlimit).mp htags) (hread.draft_eq _),
        Draft.complete, if_neg hconstrains, if_neg hconstrains, Draft.lookUpPreferences,
        (Answer.within_eq_iff_endsWithin hlimit).mpr hpreferences]

/-! ### Times do not matter to what is compiled -/

/-- Services that answer a query alike, though not at the same times. -/
structure Query.AnsweredAlike (q : Query) (viewer : Viewer) (services services' : Services) :
    Prop where
  tags : ∀ name ∈ q.tagNames, (services'.resolve name).result = (services.resolve name).result
  preferences : (services'.visibility viewer).result = (services.visibility viewer).result

theorem Answer.allSucceed_iff {α κ : Type} {answers : List (κ × Answer α)}
    {values : List (κ × α)} : AllSucceed answers values ↔
      answers.map (fun answer => (answer.1, answer.2.result)) =
        values.map fun value => (value.1, .ok value.2) := by
  rw [← List.forall₂_eq_eq_eq, List.forall₂_map_left_iff, List.forall₂_map_right_iff]
  simp only [Prod.mk.injEq]
  rfl

theorem Query.AnsweredAlike.allSucceed {services' : Services} {ids : List (String × Option Id)}
    (h : q.AnsweredAlike viewer services services')
    (hall : Answer.AllSucceed (q.tagAnswers services) ids) :
    Answer.AllSucceed (q.tagAnswers services') ids := by
  rw [Answer.allSucceed_iff] at hall ⊢
  rw [← hall, tagAnswers, tagAnswers, List.map_map, List.map_map]
  exact List.map_congr_left fun name hname => congrArg (name, ·) (h.tags name hname)

/-- A compilation that succeeds has found the tags, read the terms and completed the draft. -/
theorem compileJoining_eq_ok {c : Compiled}
    (h : (compileJoining join services config viewer q).outcome = .ok c) :
    ∃ ids d, (join (q.tagAnswers services)).result = .ok ids ∧ q.draft (.ofList ids) = .ok d ∧
      d.complete (services.visibility viewer) config = .ok c := by
  cases htags : (join (q.tagAnswers services)).within config.lookupTimeout with
  | error e =>
      rw [compileJoining_of_tags_error htags] at h
      cases h
  | ok ids =>
      cases hdraft : q.draft (SortedMap.ofList ids) with
      | error e =>
          rw [compileJoining_of_draft_error htags hdraft] at h
          cases h
      | ok d =>
          rw [compileJoining_of_draft htags hdraft] at h
          exact ⟨ids, d, Answer.result_of_within_eq_ok htags, hdraft, h⟩

/-- The limit is of no concern to a draft that is finished. -/
theorem Draft.finish_lookupTimeout (d : Draft) (limit? : Option Duration)
    (visibility? : Option Visibility) :
    d.finish { config with lookupTimeout := limit? } visibility? = d.finish config visibility? := by
  unfold finish pieces exclusions
  dsimp only

/-- What is completed is completed to the same at another time and under another limit, unless the
preferences are too late for that. -/
theorem Draft.complete_of_result {d : Draft} {answer answer' : Answer Visibility} {c : Compiled}
    (h : d.complete answer config = .ok c) (hanswer : answer'.result = answer.result)
    (limit? : Option Duration) :
    d.complete answer' { config with lookupTimeout := limit? } = .ok c ∨
      ∃ limit, limit? = some limit ∧
        d.complete answer' { config with lookupTimeout := limit? } =
          .error (.lookup (.timedOut limit)) := by
  unfold complete at h ⊢
  rw [finish_lookupTimeout]
  split at h
  next hrating =>
    rw [if_pos hrating]
    exact Or.inl h
  next hrating =>
    rw [if_neg hrating]
    unfold lookUpPreferences at h ⊢
    cases hwithin : answer.within config.lookupTimeout with
    | error e =>
        rw [hwithin] at h
        cases h
    | ok visibility =>
        rw [hwithin] at h
        have hresult := hanswer.trans (Answer.result_of_within_eq_ok hwithin)
        dsimp only at h ⊢
        rcases Answer.within_of_result_eq_ok hresult limit? with hfound | ⟨limit, rfl, hlate⟩
        · rw [hfound]
          dsimp only
          rw [finish_lookupTimeout]
          exact Or.inl h
        · rw [hlate]
          exact Or.inr ⟨limit, rfl, rfl⟩

/-- What has compiled compiles to the same at other times and under another limit, unless a lookup
is too late for that. -/
theorem Query.AnsweredAlike.outcome_eq {services' : Services} {join' : Join} {c : Compiled}
    (h : q.AnsweredAlike viewer services services') (hjoin : Answer.RunsAtOnce join)
    (hjoin' : Answer.RunsAtOnce join')
    (hcompiled : (compileJoining join services config viewer q).outcome = .ok c)
    (limit? : Option Duration) :
    (compileJoining join' services' { config with lookupTimeout := limit? } viewer q).outcome =
        .ok c ∨
      ∃ limit, limit? = some limit ∧
        (compileJoining join' services' { config with lookupTimeout := limit? } viewer q).outcome =
          .error (.lookup (.timedOut limit)) := by
  obtain ⟨ids, d, hids, hdraft, hcomplete⟩ := compileJoining_eq_ok hcompiled
  have hids' : (join' (q.tagAnswers services')).result = .ok ids :=
    (hjoin' _).result_of_allSucceed (h.allSucceed ((hjoin _).allSucceed_of_result hids))
  rcases Answer.within_of_result_eq_ok hids' limit? with htags | ⟨limit, rfl, hlate⟩
  · rw [compileJoining_of_draft htags hdraft]
    exact Draft.complete_of_result hcomplete h.preferences limit?
  · rw [compileJoining_of_tags_error hlate]
    exact Or.inr ⟨limit, rfl, rfl⟩

/-- A query with no more tags than can be watched has its lookups run at once. -/
theorem compile_eq_of_runsAtOnce (hjoin : Answer.RunsAtOnce join)
    (hfew : q.tagNames.length ≤ Answer.watchable) :
    compile services config viewer q = compileJoining join services config viewer q := by
  have hlength : (q.tagAnswers services).length ≤ Answer.watchable :=
    (List.length_map _).trans_le hfew
  have htogether : Answer.together (q.tagAnswers services) = join (q.tagAnswers services) := by
    rw [Answer.together, if_pos hlength]
    exact (Answer.runsAtOnce_watched _).unique (hjoin _)
  rw [compile_eq_compileJoining]
  unfold compileJoining
  rw [htogether]

/-- Where the lookups of tags run at once, a compilation has the outcome that is decided, and no
other. What it compiles to depends neither on times nor on the limit. -/
theorem compileJoining_eq_iff_decides (hjoin : Answer.RunsAtOnce join)
    (hlimit : config.lookupTimeout = ms?.map .ofMilliseconds) (services : Services)
    (viewer : Viewer) (q : Query) :
    (∀ c, compileJoining join services config viewer q = c ↔
      q.Decides services config viewer ms? c) ∧
    (q.tagNames.length ≤ Answer.watchable →
      compile services config viewer q = compileJoining join services config viewer q) ∧
    ∀ c, (compileJoining join services config viewer q).outcome = .ok c →
      ∀ join' services' limit?, Answer.RunsAtOnce join' →
        q.AnsweredAlike viewer services services' →
        let config' := { config with lookupTimeout := limit? }
        (compileJoining join' services' config' viewer q).outcome = .ok c ∨
          ∃ limit, limit? = some limit ∧
            (compileJoining join' services' config' viewer q).outcome =
              .error (.lookup (.timedOut limit)) := by
  refine ⟨fun c => ⟨?_, fun h => h.eq_compileJoining hjoin hlimit⟩,
    compile_eq_of_runsAtOnce hjoin, ?_⟩
  · rintro rfl
    exact Query.decides_compileJoining hjoin hlimit
  · intro c hcompiled join' services' limit? hjoin' halike
    exact halike.outcome_eq hjoin hjoin' hcompiled limit?

end

/-- A lookup that fails just in time comes before an earlier name that fails later, and before a
field that does not exist. -/
theorem compileJoining_eq_iff_decides_of_two_failures :
    let services : Services :=
      { resolve := fun name => if name = "bird" then ⟨4, .error "late"⟩ else ⟨3, .error "lost"⟩
        visibility := fun _ => .now ⟨false, false⟩ }
    let config : Config := { lookupTimeout := some (.ofMilliseconds 3) }
    ∃ q, Query.parse "bird cat colour:red" = .ok q ∧
      Answer.RunsAtOnce (Answer.watched (α := Option Id) (κ := String)) ∧
      config.lookupTimeout = (some 3).map .ofMilliseconds ∧
      compile services config .anonymous q =
        ⟨.error (.lookup (.failed "lost")), ["bird", "cat"], []⟩ := by
  intro services config
  let q : Query :=
    ⟨.tag ⟨false, ⟨.word, "bird", 0⟩⟩,
      [.tag ⟨false, ⟨.word, "cat", 5⟩⟩,
        .field ⟨⟨.word, "colour", 9⟩, ⟨.colon, ":", 15⟩, ⟨.implied, "=", 15⟩,
          ⟨.word, "red", 16⟩⟩]⟩
  have hparse : Query.parse "bird cat colour:red" = .ok q := by decide +kernel
  have hnames : q.tagNames = ["bird", "cat"] := by decide +kernel
  have hlimit : config.lookupTimeout = (some 3).map .ofMilliseconds := rfl
  obtain ⟨hdecides, hcompile, -⟩ :=
    compileJoining_eq_iff_decides Answer.runsAtOnce_watched hlimit services .anonymous q
  have hbatch : Answer.EndsAs (q.tagAnswers services) ⟨3, .error "lost"⟩ := by
    have hends := Answer.runsAtOnce_watched (q.tagAnswers services)
    rw [Query.tagAnswers, hnames] at hends ⊢
    exact hends
  have htime : Answer.IsInTime (some 3)
      (⟨3, .error "lost"⟩ : Answer (List (String × Option Id))) := by
    rintro ms hms
    cases hms
    exact Nat.le_refl 3
  have hlost := (hdecides _).mpr (.tagsNotFound ⟨_, hbatch, .failed htime rfl⟩)
  refine ⟨q, hparse, Answer.runsAtOnce_watched, hlimit, ?_⟩
  rw [hcompile (by rw [hnames]; decide), hlost, hnames]

end TagQuery
