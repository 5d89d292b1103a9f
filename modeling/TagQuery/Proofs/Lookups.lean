import TagQuery.Compile
import TagQuery.Proofs.SortedMap

/-!
What a compilation that succeeds has learnt. All its lookups have succeeded, so that the table holds
for each tag of the query what the tag service answers, and each term has been read.
-/

namespace TagQuery

theorem map_eq_ok_iff {α β ε : Type} {f : α → β} {x : Except ε α} {y : β} :
    x.map f = .ok y ↔ ∃ value, x = .ok value ∧ f value = y := by
  cases x with
  | error e => exact ⟨nofun, fun ⟨_, h, _⟩ => nomatch h⟩
  | ok value => simp only [Except.map, Except.ok.injEq, exists_eq_left']

/-- A list of steps succeeds with the values of the steps, one for each. -/
theorem mapM_eq_ok_iff {α β ε : Type} {f : α → Except ε β} {xs : List α} {ys : List β} :
    xs.mapM f = .ok ys ↔ List.Forall₂ (fun x y => f x = .ok y) xs ys := by
  induction xs generalizing ys with
  | nil =>
      rw [List.mapM_nil, List.forall₂_nil_left_iff]
      exact ⟨fun h => by cases h; rfl, fun h => h ▸ rfl⟩
  | cons x xs ih =>
      rw [List.mapM_cons, List.forall₂_cons_left_iff]
      cases hx : f x with
      | error e => exact ⟨nofun, fun ⟨_, _, h, _⟩ => nomatch h⟩
      | ok y =>
          cases hxs : xs.mapM f with
          | error e => exact ⟨nofun, fun ⟨_, _, _, h, _⟩ => nomatch hxs.symm.trans (ih.mpr h)⟩
          | ok rest =>
              constructor
              · intro h
                cases h
                exact ⟨y, rest, rfl, ih.mp hxs, rfl⟩
              · rintro ⟨y', rest', hy, hrest, rfl⟩
                cases hy
                cases hxs.symm.trans (ih.mpr hrest)
                rfl

/-- A list of steps fails as the first of its steps that fails. -/
theorem mapM_eq_error_iff {α β ε : Type} {f : α → Except ε β} {xs : List α} {e : ε} :
    xs.mapM f = .error e ↔ ∃ before x after, xs = before ++ x :: after ∧
      (∀ y ∈ before, ∃ value, f y = .ok value) ∧ f x = .error e := by
  induction xs with
  | nil =>
      rw [List.mapM_nil]
      exact ⟨nofun, fun ⟨before, _, _, h, _⟩ => nomatch List.append_eq_nil_iff.mp h.symm⟩
  | cons x xs ih =>
      rw [List.mapM_cons]
      constructor
      · intro h
        cases hx : f x with
        | error e' =>
            rw [hx] at h
            cases h
            exact ⟨[], x, xs, rfl, nofun, hx⟩
        | ok value =>
            have hxs : xs.mapM f = .error e := by
              rw [hx] at h
              cases hxs : xs.mapM f with
              | error e' =>
                  rw [hxs] at h
                  exact h
              | ok values =>
                  rw [hxs] at h
                  cases h
            obtain ⟨before, y, after, rfl, hbefore, hy⟩ := ih.mp hxs
            exact ⟨x :: before, y, after, rfl, List.forall_mem_cons.mpr ⟨⟨value, hx⟩, hbefore⟩, hy⟩
      · rintro ⟨before, y, after, hsplit, hbefore, hy⟩
        rcases List.cons_eq_append_iff.mp hsplit with ⟨rfl, htail⟩ | ⟨before', rfl, rfl⟩
        · cases htail
          rw [hy]
          rfl
        · obtain ⟨⟨value, hx⟩, hbefore⟩ := List.forall_mem_cons.mp hbefore
          rw [hx, ih.mpr ⟨before', y, after, rfl, hbefore, hy⟩]
          rfl

section

variable {α β : Type} {R : α → β → Prop} {xs : List α} {ys : List β}

theorem exists_of_mem_left (h : List.Forall₂ R xs ys) {x : α} (hx : x ∈ xs) : ∃ y ∈ ys, R x y := by
  induction h with
  | nil => cases hx
  | @cons _ y _ _ hR _ ih =>
      rcases List.mem_cons.mp hx with rfl | hx
      · exact ⟨y, List.mem_cons_self, hR⟩
      · obtain ⟨y', hy', hR'⟩ := ih hx
        exact ⟨y', List.mem_cons_of_mem _ hy', hR'⟩

theorem exists_of_mem_right (h : List.Forall₂ R xs ys) {y : β} (hy : y ∈ ys) : ∃ x ∈ xs, R x y :=
  exists_of_mem_left h.flip hy

theorem forall₂_imp_of_mem {S : α → β → Prop} (h : List.Forall₂ R xs ys)
    (hS : ∀ x ∈ xs, ∀ y ∈ ys, R x y → S x y) : List.Forall₂ S xs ys := by
  rw [List.forall₂_iff_zip] at h ⊢
  refine ⟨h.1, fun hpair => ?_⟩
  obtain ⟨hx, hy⟩ := List.of_mem_zip hpair
  exact hS _ hx _ hy (h.2 hpair)

/-- Lists whose members say the same, each to each, say the same as a whole. -/
theorem forall_mem_iff_of_forall₂ {P : α → Prop} {Q : β → Prop} (h : List.Forall₂ R xs ys)
    (hstep : ∀ x ∈ xs, ∀ y, R x y → (P x ↔ Q y)) : (∀ x ∈ xs, P x) ↔ ∀ y ∈ ys, Q y := by
  constructor
  · intro hP y hy
    obtain ⟨x, hx, hR⟩ := exists_of_mem_right h hy
    exact (hstep x hx y hR).mp (hP x hx)
  · intro hQ x hx
    obtain ⟨y, hy, hR⟩ := exists_of_mem_left h hx
    exact (hstep x hx y hR).mpr (hQ y hy)

end

namespace Answer

variable {α κ : Type}

theorem result_of_within_eq_ok {limit : Option Duration} {answer : Answer α} {value : α}
    (h : answer.within limit = .ok value) : answer.result = .ok value := by
  have hresult : answer.result.mapError LookupError.failed = .ok value := by
    cases limit with
    | none => exact h
    | some limit =>
        unfold within at h
        dsimp only at h
        split at h
        · cases h
        · exact h
  cases hr : answer.result with
  | error text =>
      rw [hr] at hresult
      cases hresult
  | ok v =>
      rw [hr] at hresult
      cases hresult
      rfl

theorem collect_cons (key : κ) (answer : Answer α) (answers : List (κ × Answer α)) :
    collect ((key, answer) :: answers) = do
      let value ← answer.result.map (key, ·)
      let values ← collect answers
      return value :: values :=
  List.mapM_cons

/-- The values are those of the lookups, each beside its key. -/
theorem collect_eq_ok_iff {answers : List (κ × Answer α)} {values : List (κ × α)} :
    collect answers = .ok values ↔
      List.Forall₂ (fun answer entry => answer.1 = entry.1 ∧ answer.2.result = .ok entry.2)
        answers values := by
  have hstep (answer : κ × Answer α) (entry : κ × α) :
      answer.2.result.map (answer.1, ·) = .ok entry ↔
        answer.1 = entry.1 ∧ answer.2.result = .ok entry.2 := by
    rw [map_eq_ok_iff]
    constructor
    · rintro ⟨value, hvalue, rfl⟩
      exact ⟨rfl, hvalue⟩
    · rintro ⟨hkey, hvalue⟩
      exact ⟨entry.2, hvalue, Prod.ext hkey rfl⟩
  rw [collect, mapM_eq_ok_iff]
  simp only [hstep]

theorem keys_of_collect {answers : List (κ × Answer α)} {values : List (κ × α)}
    (h : collect answers = .ok values) : values.map Prod.fst = answers.map Prod.fst := by
  have hkeys : List.Forall₂ (· = ·) (answers.map Prod.fst) (values.map Prod.fst) :=
    List.forall₂_map_left_iff.mpr (List.forall₂_map_right_iff.mpr
      ((collect_eq_ok_iff.mp h).imp fun _ _ hentry => hentry.1))
  rw [List.forall₂_eq_eq_eq] at hkeys
  exact hkeys.symm

theorem result_of_mem_collect {answers : List (κ × Answer α)} {values : List (κ × α)} {key : κ}
    {value : α} (h : collect answers = .ok values) (hmem : (key, value) ∈ values) :
    ∃ answer, (key, answer) ∈ answers ∧ answer.result = .ok value := by
  obtain ⟨⟨k, answer⟩, hanswer, rfl, hresult⟩ := exists_of_mem_right (collect_eq_ok_iff.mp h) hmem
  exact ⟨answer, hanswer, hresult⟩

/-- The answers after the first failure do not matter. -/
theorem collect_awaited (answers : List (κ × Answer α)) :
    collect (awaited answers) = collect answers := by
  induction answers with
  | nil => rfl
  | cons first answers ih =>
      obtain ⟨key, answer⟩ := first
      unfold awaited
      cases hr : answer.result with
      | error text =>
          rw [collect_cons, collect_cons, hr]
          rfl
      | ok value =>
          show collect ((key, answer) :: awaited answers) = _
          rw [collect_cons, collect_cons, ih]

theorem firstFailure_eq_none_of_collect_eq_ok {answers : List (κ × Answer α)}
    {values : List (κ × α)} (h : collect answers = .ok values) : firstFailure answers = none := by
  induction answers generalizing values with
  | nil => rfl
  | cons first answers ih =>
      obtain ⟨key, answer⟩ := first
      obtain ⟨_, rest, hvalue, hrest, rfl⟩ := List.forall₂_cons_left_iff.mp (mapM_eq_ok_iff.mp h)
      unfold firstFailure
      cases hr : answer.result with
      | error text =>
          dsimp only at hvalue
          rw [hr] at hvalue
          cases hvalue
      | ok value => exact ih (mapM_eq_ok_iff.mpr hrest)

theorem collect_eq_error_of_firstFailure {answers : List (κ × Answer α)} {failure : Nat × String}
    (h : firstFailure answers = some failure) : ∃ text, collect answers = .error text := by
  cases hc : collect answers with
  | error text => exact ⟨text, rfl⟩
  | ok values =>
      rw [firstFailure_eq_none_of_collect_eq_ok hc] at h
      cases h

/-- Lookups that run at once succeed if each of them does, and then with the value of each. -/
theorem together_eq_ok_iff {answers : List (κ × Answer α)} {values : List (κ × α)} :
    (together answers).result = .ok values ↔ collect answers = .ok values := by
  unfold together
  split
  · unfold watched
    split
    next delay text hfailure =>
      obtain ⟨first, hcollect⟩ := collect_eq_error_of_firstFailure hfailure
      rw [hcollect]
      exact ⟨nofun, nofun⟩
    next => exact Iff.rfl
  · show collect (awaited answers) = .ok values ↔ _
    rw [collect_awaited]

end Answer

/-! ### The table of a query -/

theorem Query.mem_tagNames_iff {q : Query} {name : String} :
    name ∈ q.tagNames ↔ ∃ t ∈ q.terms, ∃ tag ∈ t.tags, tag.test.name = name := by
  rw [Query.tagNames, SortedMap.mem_keys_ofList, List.map_flatMap]
  simp only [List.map_map, List.mem_flatMap, List.mem_map, Function.comp_apply]

/-- What is answered to lookups by name that all succeed is in the table of their values. -/
theorem TagTable.result_of_collect {resolve : String → Answer (Option Id)} {names : List String}
    {ids : List (String × Option Id)} {name : String}
    (hids : Answer.collect (names.map fun name => (name, resolve name)) = .ok ids)
    (hname : name ∈ names) :
    (resolve name).result = .ok (TagTable.id? (SortedMap.ofList ids) name) := by
  have hkeys : name ∈ ids.map Prod.fst := by
    rw [Answer.keys_of_collect hids, List.map_map]
    exact List.mem_map_of_mem hname
  obtain ⟨id?, hid⟩ := SortedMap.mem_keys_iff.mp (SortedMap.mem_keys_ofList.mpr hkeys)
  obtain ⟨answer, hanswer, hresult⟩ :=
    Answer.result_of_mem_collect hids (SortedMap.mem_of_get?_ofList hid)
  obtain ⟨_, _, heq⟩ := List.mem_map.mp hanswer
  cases heq
  rw [hresult, TagTable.id?, hid]
  rfl

/-- The terms of a query as they are read, with a table that holds what the tag service answers. -/
structure Query.DraftedAs (services : Services) (q : Query) (d : Draft) : Prop where
  clauses : List.Forall₂ (fun t clause => t.clause = .ok clause) q.terms d.clauses
  table : ∀ name ∈ q.tagNames, (services.resolve name).result = .ok (d.table.id? name)

theorem Query.draftedAs_of_draft {services : Services} {q : Query} {ids : List (String × Option Id)}
    {d : Draft}
    (hids : Answer.collect (q.tagNames.map fun name => (name, services.resolve name)) = .ok ids)
    (hd : q.draft (SortedMap.ofList ids) = .ok d) : q.DraftedAs services d := by
  obtain ⟨clauses, hclauses, rfl⟩ := map_eq_ok_iff.mp hd
  exact ⟨mapM_eq_ok_iff.mp hclauses, fun _ hname => TagTable.result_of_collect hids hname⟩

/-- A compilation that succeeds finishes a draft of the query, with what the viewer hides unless the
draft constrains the rating. -/
theorem compile_eq_ok {services : Services} {config : Config} {viewer : Viewer} {q : Query}
    {c : Compiled} (h : (compile services config viewer q).outcome = .ok c) :
    ∃ d visibility?, q.DraftedAs services d ∧ c = d.finish config visibility? ∧
      ((d.constrainsRating = true ∧ visibility? = none) ∨
        (d.constrainsRating = false ∧
          ∃ v, (services.visibility viewer).result = .ok v ∧ visibility? = some v)) := by
  unfold compile at h
  dsimp only at h
  split at h
  next => cases h
  next ids hids =>
    have hcollect := Answer.together_eq_ok_iff.mp (Answer.result_of_within_eq_ok hids)
    split at h
    next => cases h
    next d hd =>
      have hdraft := Query.draftedAs_of_draft hcollect hd
      split at h
      next hrating =>
        cases h
        exact ⟨d, none, hdraft, rfl, Or.inl ⟨hrating, rfl⟩⟩
      next hrating =>
        split at h
        next => cases h
        next v hv =>
          cases h
          exact ⟨d, some v, hdraft, rfl, Or.inr ⟨Bool.eq_false_iff.mpr hrating, v,
            Answer.result_of_within_eq_ok hv, rfl⟩⟩

end TagQuery
