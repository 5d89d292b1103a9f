import TagQuery.Proofs.OnePass
import TagQuery.Proofs.Traversal

/-!
The lookups of the tags of a query. Each name is asked for once and all at once, before anything is
compiled. What comes of that is what a pass over the tree gives that asks for each tag where it
meets it.
-/

namespace TagQuery

/-- The names of the tags of a query with what the service answers to them, in the order of the
names. -/
def Query.tagAnswers (q : Query) (services : Services) : List (String × Answer (Option Id)) :=
  q.tagNames.map fun name => (name, services.resolve name)

theorem Query.tagNames_ascending (q : Query) : q.tagNames.Pairwise (· < ·) :=
  List.pairwise_map.mpr (SortedMap.ofList _).ascending

theorem Query.tagNames_nodup (q : Query) : q.tagNames.Nodup :=
  q.tagNames_ascending.imp fun hlt => ne_of_lt hlt

/-- The names are the words of the tags of the tree in lower case. -/
theorem Query.mem_tagNames_iff_tagWords {q : Query} {name : String} :
    name ∈ q.tagNames ↔ name ∈ q.tree.tagWords.map Text.lowercase := by
  rw [Query.mem_tagNames_iff, Query.tagWords_tree, List.map_flatMap, List.mem_flatMap]
  simp only [List.map_map, List.mem_map, Function.comp_apply]
  rfl

theorem compile_tagLookups (services : Services) (config : Config) (viewer : Viewer) (q : Query) :
    (compile services config viewer q).tagLookups = q.tagNames := by
  unfold compile
  dsimp only
  split
  · rfl
  · split
    · rfl
    · split
      · rfl
      · split <;> rfl

theorem Answer.within_eq_result {α : Type} {answer : Answer α} {limit : Option Duration}
    (h : ∀ l, limit = some l → answer.delay ≤ l.ticks) :
    answer.within limit = answer.result.mapError .failed := by
  cases limit with
  | none => rfl
  | some l => exact if_neg (Nat.not_lt.mpr (h l rfl))

/-- Lookups that all succeed give each name with its id. -/
theorem Answer.collect_tagAnswers {q : Query} {services : Services} {resolve : String → Option Id}
    (h : ∀ name ∈ q.tagNames, (services.resolve name).result = .ok (resolve name)) :
    collect (q.tagAnswers services) = .ok (q.tagNames.map fun name => (name, resolve name)) := by
  rw [collect_eq_ok_iff, Query.tagAnswers, List.forall₂_map_left_iff, List.forall₂_map_right_iff]
  exact List.forall₂_same.mpr fun name hname => ⟨rfl, h name hname⟩

theorem TagTable.get?_ofList_map {names : List String} {resolve : String → Option Id}
    {name : String} (hname : name ∈ names) :
    (SortedMap.ofList (names.map fun name => (name, resolve name))).get? name =
      some (resolve name) := by
  have hkey : name ∈ (names.map fun name => (name, resolve name)).map Prod.fst := by
    simpa using hname
  obtain ⟨id?, hid⟩ := SortedMap.mem_keys_iff.mp (SortedMap.mem_keys_ofList.mpr hkey)
  obtain ⟨_, _, hentry⟩ := List.mem_map.mp (SortedMap.mem_of_get?_ofList hid)
  cases hentry
  exact hid

theorem Query.lookUpTags_of_within {q : Query} {services : Services} {config : Config}
    {ids : List (String × Option Id)}
    (h : (Answer.together (q.tagAnswers services)).within config.lookupTimeout = .ok ids) :
    q.lookUpTags services.resolve config = (q.draft (.ofList ids)).mapError .term := by
  rw [tagAnswers] at h
  rw [lookUpTags, h]

/-- Where all lookups of tags succeed in time, each name has been asked for once, the names are
those of the tags of the tree, and the outcome is that of one pass over the tree which asks for each
tag where it meets it: the table holds for each tag what the service says of it. -/
theorem compile_eq_compile_tree {services : Services} {config : Config} {q : Query}
    {resolve : String → Option Id}
    (hresolve : ∀ name ∈ q.tagNames, (services.resolve name).result = .ok (resolve name))
    (htime : ∀ limit, config.lookupTimeout = some limit →
      (Answer.together (q.tagAnswers services)).delay ≤ limit.ticks) (viewer : Viewer) :
    (compile services config viewer q).tagLookups.Nodup ∧
    (∀ name, name ∈ (compile services config viewer q).tagLookups ↔
      name ∈ q.tree.tagWords.map Text.lowercase) ∧
    (∃ ids, (Answer.together (q.tagAnswers services)).result = .ok ids ∧
      ∀ word ∈ q.tree.tagWords, (SortedMap.ofList ids).get? (Text.lowercase word) =
        some (resolve (Text.lowercase word))) ∧
    (compile services config viewer q).outcome =
      q.tree.compile resolve (services.visibility viewer) config := by
  have hbatch : (Answer.together (q.tagAnswers services)).result =
      .ok (q.tagNames.map fun name => (name, resolve name)) :=
    Answer.together_eq_ok_iff.mpr (Answer.collect_tagAnswers hresolve)
  rw [compile_tagLookups]
  refine ⟨q.tagNames_nodup, fun _ => Query.mem_tagNames_iff_tagWords, ⟨_, hbatch, ?_⟩, ?_⟩
  · intro word hword
    exact TagTable.get?_ofList_map
      (Query.mem_tagNames_iff_tagWords.mpr (List.mem_map_of_mem hword))
  · have hwithin := Answer.within_eq_result htime
    rw [hbatch] at hwithin
    have htable : ∀ t ∈ q.terms, ∀ tag ∈ t.tags, TagTable.id?
        (SortedMap.ofList (q.tagNames.map fun name => (name, resolve name))) tag.test.name =
          resolve tag.test.name := by
      intro t ht tag htag
      have hname := Query.mem_tagNames_iff.mpr ⟨t, ht, tag, htag, rfl⟩
      rw [TagTable.id?, TagTable.get?_ofList_map hname]
      rfl
    rw [compile_outcome, Query.lookUpTags_of_within hwithin, Query.compile_tree htable]

/-- Tags that differ in case are one lookup, and a value that reads like a tag is none. -/
theorem compile_eq_compile_tree_of_repeated_tag :
    let resolve name := if name = "cat" then some 3 else none
    let services : Services :=
      { resolve := fun name => ⟨name.length, .ok (resolve name)⟩
        visibility := fun _ => .now ⟨false, false⟩ }
    let config : Config := { lookupTimeout := some (.ofMilliseconds 3) }
    ∃ q, Query.parse "\x7bCAT ~ -dog\x7d -Cat title:bird" = .ok q ∧
      (compile services config .anonymous q).tagLookups = ["cat", "dog"] ∧
      q.tree.tagWords = ["CAT", "dog", "Cat"] ∧
      (compile services config .anonymous q).outcome =
        q.tree.compile resolve (.now ⟨false, false⟩) config := by
  intro resolve services config
  let q : Query :=
    ⟨.alternatives ⟨.orStart, "\x7b", 0⟩ ⟨false, ⟨.word, "CAT", 1⟩⟩ ⟨true, ⟨.word, "dog", 8⟩⟩ [],
      [.tag ⟨true, ⟨.word, "Cat", 14⟩⟩,
        .field ⟨⟨.word, "title", 18⟩, ⟨.colon, ":", 23⟩, ⟨.implied, "=", 23⟩,
          ⟨.word, "bird", 24⟩⟩]⟩
  have hparse : Query.parse "\x7bCAT ~ -dog\x7d -Cat title:bird" = .ok q := by decide +kernel
  have hnames : q.tagNames = ["cat", "dog"] := by decide +kernel
  have hresolve : ∀ name ∈ q.tagNames, (services.resolve name).result = .ok (resolve name) :=
    fun _ _ => rfl
  have htime : ∀ limit, config.lookupTimeout = some limit →
      (Answer.together (q.tagAnswers services)).delay ≤ limit.ticks := by
    rintro limit hlimit
    cases hlimit
    rw [Query.tagAnswers, hnames]
    decide +kernel
  obtain ⟨-, -, -, houtcome⟩ := compile_eq_compile_tree hresolve htime .anonymous
  exact ⟨q, hparse, (compile_tagLookups ..).trans hnames, q.tagWords_tree, houtcome⟩

end TagQuery
