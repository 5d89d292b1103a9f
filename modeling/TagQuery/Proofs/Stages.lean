import TagQuery.Proofs.Lookups
import TagQuery.Search
import TagQuery.Store

/-!
A compilation in its two stages: what it learns from the tag service, and what it learns from the
preference service after that. On a store the outcome depends on the names of tags and on what is
hidden from the viewer, and on the latter only if the query does not constrain the rating.
-/

namespace TagQuery

/-- The first stage. The tags are looked up and the terms are read. -/
def Query.lookUpTags (q : Query) (resolve : String → Answer (Option Id)) (config : Config) :
    Except CompileError Draft :=
  match (Answer.together (q.tagNames.map fun name => (name, resolve name))).within
      config.lookupTimeout with
  | .error e => .error (.lookup e)
  | .ok ids => (q.draft (SortedMap.ofList ids)).mapError .term

/-- The second stage, for a query that does not constrain the rating. -/
def Draft.lookUpPreferences (d : Draft) (answer : Answer Visibility) (config : Config) :
    Except CompileError Compiled :=
  match answer.within config.lookupTimeout with
  | .error e => .error (.lookup e)
  | .ok visibility => .ok (d.finish config (some visibility))

/-- What is left to do with a draft. -/
def Draft.complete (d : Draft) (answer : Answer Visibility) (config : Config) :
    Except CompileError Compiled :=
  if d.constrainsRating then .ok (d.finish config none) else d.lookUpPreferences answer config

theorem compile_outcome (services : Services) (config : Config) (viewer : Viewer) (q : Query) :
    (compile services config viewer q).outcome =
      (q.lookUpTags services.resolve config).bind fun d =>
        d.complete (services.visibility viewer) config := by
  unfold compile Query.lookUpTags
  dsimp only
  cases (Answer.together (q.tagNames.map fun name => (name, services.resolve name))).within
      config.lookupTimeout with
  | error e => rfl
  | ok ids =>
      dsimp only
      cases q.draft (SortedMap.ofList ids) with
      | error e => rfl
      | ok d =>
          show (if _ then _ else _ : Compilation).outcome = d.complete _ _
          unfold Draft.complete Draft.lookUpPreferences
          split
          · rfl
          · cases (services.visibility viewer).within config.lookupTimeout with
            | error e => rfl
            | ok visibility => rfl

section

variable {services : Services} {config : Config} {viewer : Viewer} {text : String}

theorem compileText_of_malformed {e : ParseError} (h : Query.parse text = .error e) :
    compileText services config viewer text = .error (.malformed e) := by
  unfold compileText
  rw [h]

theorem compileText_of_parse {q : Query} (h : Query.parse text = .ok q) :
    compileText services config viewer text =
      (compile services config viewer q).outcome.mapError .compile := by
  unfold compileText
  rw [h]

end

theorem Answer.within_now {α : Type} (limit : Option Duration) (value : α) :
    (Answer.now value).within limit = .ok value := by
  cases limit with
  | none => rfl
  | some limit => simp only [within, now, Nat.not_lt_zero, if_false, Except.mapError]

/-- The preferences that matter to a draft. -/
def Draft.heeded (d : Draft) (visibility : Visibility) : Option Visibility :=
  if d.constrainsRating then none else some visibility

theorem Draft.complete_now (d : Draft) (visibility : Visibility) (config : Config) :
    d.complete (.now visibility) config = .ok (d.finish config (d.heeded visibility)) := by
  unfold complete lookUpPreferences heeded
  rw [Answer.within_now]
  split <;> rfl

theorem compileText_eq_ok_iff {s : Store} {config : Config} {viewer : Viewer} {text : String}
    {c : Compiled} :
    compileText s.services config viewer text = .ok c ↔
      ∃ q d, Query.parse text = .ok q ∧
        q.lookUpTags (fun name => .now (s.resolve name)) config = .ok d ∧
        d.finish config (d.heeded (s.visibility viewer)) = c := by
  have houtcome (q : Query) : (compile s.services config viewer q).outcome =
      (q.lookUpTags (fun name => .now (s.resolve name)) config).bind fun d =>
        .ok (d.finish config (d.heeded (s.visibility viewer))) := by
    rw [compile_outcome]
    exact congrArg _ (funext fun d => d.complete_now _ config)
  constructor
  · intro h
    cases hparse : Query.parse text with
    | error e =>
        rw [compileText_of_malformed hparse] at h
        cases h
    | ok q =>
        rw [compileText_of_parse hparse, houtcome] at h
        cases hdraft : q.lookUpTags (fun name => .now (s.resolve name)) config with
        | error e =>
            rw [hdraft] at h
            cases h
        | ok d =>
            rw [hdraft] at h
            cases h
            exact ⟨q, d, rfl, hdraft, rfl⟩
  · rintro ⟨q, d, hparse, hdraft, rfl⟩
    rw [compileText_of_parse hparse, houtcome, hdraft]
    rfl

theorem Piece.params_sequence_exclusion (base : Nat) (ratings : List Rating)
    (pieces : List (Nat → Piece)) :
    (sequence base (ratings.map Rating.exclusion ++ pieces)).2 =
      ratings.map (fun rating => .text rating.keyword) ++
        (sequence (base + ratings.length) pieces).2 := by
  induction ratings generalizing base with
  | nil => rfl
  | cons rating ratings ih =>
      simp only [List.map_cons, List.cons_append, sequence, Rating.exclusion, single,
        List.length_cons, List.length_nil, List.nil_append, List.cons.injEq, true_and]
      rw [ih, Nat.add_comm ratings.length, Nat.add_assoc]

/-- The parameters of what leaves out the hidden ratings. -/
def Visibility.params (v : Visibility) : List Param :=
  v.hidden.map fun rating => .text rating.keyword

theorem Visibility.params_injective : Function.Injective Visibility.params := by
  rintro ⟨a, b⟩ ⟨a', b'⟩
  revert a b a' b'
  decide

theorem Draft.params_exclusions (d : Draft) (config : Config) (v : Visibility) (base : Nat) :
    (Piece.sequence base (d.exclusions config (some v))).2 =
      v.params ++ if !d.constrainsStatus && config.hideDeleted
        then [.text PostStatus.ok.keyword] else [] := by
  unfold exclusions
  rw [Option.elim, Piece.params_sequence_exclusion]
  split <;> rfl

/-- No two preferences leave out the same ratings. -/
theorem Draft.finish_injective {d : Draft} {config : Config} {v v' : Visibility}
    (h : d.finish config (some v) = d.finish config (some v')) : v = v' := by
  have hparams := List.append_cancel_left (congrArg Compiled.params h)
  rw [params_exclusions, params_exclusions] at hparams
  exact Visibility.params_injective (List.append_cancel_right hparams)

/-- Where names stand for the same ids, a compiled query is what another store would give exactly if
it constrains the rating or the same is hidden from the viewer. -/
theorem compileText_iff_of_resolve {s s' : Store} {config : Config} {viewer : Viewer}
    {text : String} {c : Compiled} (hresolve : s.resolve = s'.resolve)
    (h : compileText s.services config viewer text = .ok c) :
    compileText s'.services config viewer text = .ok c ↔
      c.constrainsRating = true ∨ s.visibility viewer = s'.visibility viewer := by
  obtain ⟨q, d, hparse, hdraft, rfl⟩ := compileText_eq_ok_iff.mp h
  have hother : compileText s'.services config viewer text = .ok
      (d.finish config (d.heeded (s'.visibility viewer))) :=
    compileText_eq_ok_iff.mpr ⟨q, d, hparse, hresolve ▸ hdraft, rfl⟩
  rw [hother, Except.ok.injEq]
  show _ ↔ d.constrainsRating = true ∨ _
  unfold Draft.heeded
  by_cases hrating : d.constrainsRating = true
  · rw [if_pos hrating, if_pos hrating]
    exact iff_of_true rfl (Or.inl hrating)
  · rw [if_neg hrating, if_neg hrating, or_iff_right hrating]
    exact ⟨fun heq => (Draft.finish_injective heq).symm, fun heq => by rw [heq]⟩

end TagQuery
