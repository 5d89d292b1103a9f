import TagQuery.Proofs.Preservation

/-!
What is hidden stays hidden. A post with a rating that is hidden from the viewer, or a deleted post,
satisfies a compiled query only if a term of the query asks for just that rating or that status.
-/

namespace TagQuery

/-- A column holds a text, and compares with other texts by whether it equals them. -/
def Post.ReadsAs (post : Post) (column : Column) (text : String) : Prop :=
  ∀ value, (post.compares column .equal (.text value) ↔ text = value) ∧
    (post.compares column .notEqual (.text value) ↔ text ≠ value)

variable {services : Services} {store : Store} {config : Config} {viewer : Viewer} {q : Query}
  {post : Post}

/-- Where a query has a field whose value is compared with a column, what it selects has the value of
such a field in that column. -/
theorem Query.Selects.hasFieldValue (h : q.Selects services config viewer post) {name : String}
    {column : Column} {text : String} (hcolumn : post.ReadsAs column text)
    (hname : ∀ t : FieldTerm, t.name.value.toLower = name →
      t.Holds config.legacyLessThan post → t.Equals post column)
    (hfield : q.HasField name) : q.HasFieldValue name text := by
  obtain ⟨t, ht, htname⟩ := hfield
  have hequals := hname t htname (h.terms _ ht)
  exact ⟨t, ht, htname, ((hcolumn _).1.mp hequals).symm⟩

/-- What a query selects has a rating that a field of the query names, or one that is shown. -/
theorem Query.Selects.rating_cases (h : q.Selects services config viewer post) {rating : String}
    (hrating : post.ReadsAs .rating rating) :
    q.HasFieldValue "rating" rating ∨ ∃ v, (services.visibility viewer).result = .ok v ∧
      (v.hidesNotSafe = true → rating ≠ "unsafe") ∧
      (v.hidesExplicit = true → rating ≠ "explicit") := by
  by_cases hfield : q.HasField "rating"
  · left
    apply h.hasFieldValue hrating _ hfield
    intro t hname hholds
    simpa only [FieldTerm.Holds, hname] using hholds
  · right
    obtain ⟨v, hv, hnotSafe, hexplicit⟩ := h.rating hfield
    exact ⟨v, hv, fun hhide => (hrating _).2.mp (hnotSafe hhide),
      fun hhide => (hrating _).2.mp (hexplicit hhide)⟩

/-- What a query selects has a status that a field of the query names, or it is `ok` where deleted
posts are hidden. -/
theorem Query.Selects.status_cases (h : q.Selects services config viewer post) {status : String}
    (hstatus : post.ReadsAs .status status) :
    q.HasFieldValue "status" status ∨ (config.hideDeleted = true → status = "ok") := by
  by_cases hfield : q.HasField "status"
  · left
    apply h.hasFieldValue hstatus _ hfield
    intro t hname hholds
    simpa only [FieldTerm.Holds, hname] using hholds
  · right
    intro hhide
    exact (hstatus _).1.mp (h.status hfield hhide)

/-- No hidden post satisfies a compiled query, unless a term of the query is a field for its rating,
or for its status, with just that value. -/
theorem hasFieldValue_of_hidden {text rating status : String} {c : Compiled}
    (hparse : Query.parse text = .ok q)
    (hcompile : (compile store.services config viewer q).outcome = .ok c)
    (hrating : post.ReadsAs .rating rating) (hstatus : post.ReadsAs .status status)
    (hpost : c.Holds post) :
    ((store.visibility viewer).hidesExplicit = true → rating = "explicit" →
      q.HasFieldValue "rating" "explicit") ∧
    ((store.visibility viewer).hidesNotSafe = true → rating = "unsafe" →
      q.HasFieldValue "rating" "unsafe") ∧
    (config.hideDeleted = true → status = "deleted" → q.HasFieldValue "status" "deleted") := by
  have hselects : q.Selects store.services config viewer post :=
    (compiled_holds_iff_selects (fun _ ht => FieldTerm.operatorKnown_of_parse hparse ht)
      hcompile).mp hpost
  refine ⟨?_, ?_, ?_⟩
  · rintro hhide rfl
    rcases hselects.rating_cases hrating with hfield | ⟨v, hv, -, hexplicit⟩
    · exact hfield
    · cases hv
      exact absurd rfl (hexplicit hhide)
  · rintro hhide rfl
    rcases hselects.rating_cases hrating with hfield | ⟨v, hv, hnotSafe, -⟩
    · exact hfield
    · cases hv
      exact absurd rfl (hnotSafe hhide)
  · rintro hhide rfl
    rcases hselects.status_cases hstatus with hfield | hok
    · exact hfield
    · exact absurd (hok hhide) (by decide)

/-- A post that is deleted and explicit is found by the query that asks for both, in any casing. -/
theorem hasFieldValue_of_deleted_and_explicit :
    ∃ q c post, Query.parse "Rating:EXPLICIT status:Deleted" = .ok q ∧
      (compile Store.empty.services {} .anonymous q).outcome = .ok c ∧
      post.ReadsAs .rating "explicit" ∧ post.ReadsAs .status "deleted" ∧ c.Holds post ∧
      q.HasFieldValue "rating" "explicit" ∧ q.HasFieldValue "status" "deleted" := by
  let q : Query :=
    ⟨.field ⟨⟨.word, "Rating", 0⟩, ⟨.colon, ":", 6⟩, ⟨.implied, "=", 6⟩, ⟨.word, "EXPLICIT", 7⟩⟩,
      [.field ⟨⟨.word, "status", 16⟩, ⟨.colon, ":", 22⟩, ⟨.implied, "=", 22⟩,
        ⟨.word, "Deleted", 23⟩⟩]⟩
  let c : Compiled :=
    { predicate := .and [.compare .rating .equal 0, .compare .status .equal 1]
      params := [.text "explicit", .text "deleted"]
      order := .newestFirst
      constrainsRating := true
      constrainsStatus := true }
  let text (column : Column) : String := if column = .rating then "explicit" else "deleted"
  let post : Post :=
    { carries := fun _ => False
      compares := fun column comparator value =>
        if comparator = .equal then .text (text column) = value else .text (text column) ≠ value
      contains := fun _ _ => False
      childOf := fun _ => False
      parentOf := fun _ => False
      inPool := fun _ => False }
  have hparse : Query.parse "Rating:EXPLICIT status:Deleted" = .ok q := by decide +kernel
  have hcompile : (compile Store.empty.services {} .anonymous q).outcome = .ok c := by cbv
  have hreads (column : Column) : post.ReadsAs column (text column) := fun value => by
    simp [post]
  have hpost : c.Holds post := ⟨⟨_, rfl, rfl⟩, ⟨_, rfl, rfl⟩, trivial⟩
  obtain ⟨hexplicit, -, hdeleted⟩ :=
    hasFieldValue_of_hidden hparse hcompile (hreads .rating) (hreads .status) hpost
  exact ⟨q, c, post, hparse, hcompile, hreads .rating, hreads .status, hpost, hexplicit rfl rfl,
    hdeleted rfl rfl⟩

end TagQuery
