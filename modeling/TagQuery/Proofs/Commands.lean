import TagQuery.Command.Directory
import TagQuery.Proofs.Arguments
import TagQuery.Proofs.Snapshots
import TagQuery.Proofs.StoreChanges

/-!
The program from its arguments to its files. `init` writes the store of its tags if their names
differ in lower case, and touches no file otherwise. `search` writes nothing, and prints as much as
the query, the environment and the store allow.
-/

namespace TagQuery

open Text

namespace Directory

variable {d d' : Directory} {path name : String} {bytes : Bytes}

/-- A path under which a file can be written leads to it when the file is wanted for reading. -/
theorem follow_reading {parts : List (List Char)} {place : Place}
    (h : d.follow .writing place parts = .ok name) :
    d'.follow .reading place parts = .ok name := by
  induction parts generalizing place with
  | nil => cases h
  | cons part parts ih =>
      rw [follow.eq_def] at h ⊢
      dsimp only at h ⊢
      by_cases hsame : part = [] ∨ part = ['.']
      · rw [if_pos hsame] at h ⊢
        exact ih h
      rw [if_neg hsame] at h ⊢
      by_cases hup : part = ['.', '.']
      · rw [if_pos hup] at h ⊢
        exact ih h
      rw [if_neg hup] at h ⊢
      rw [if_neg (by simp)]
      by_cases hdirectory : Access.writing = .writing ∧ parts ≠ [] ∧ parts.all (· = [])
      · rw [if_pos hdirectory] at h
        cases h
      rw [if_neg hdirectory] at h
      by_cases hlong : nameLimit < utf8Length part
      · rw [if_pos hlong] at h
        cases h
      rw [if_neg hlong] at h ⊢
      split at h
      · exact h
      · cases h
      · cases h

theorem locate_reading (h : d.locate .writing path = .ok name) :
    d'.locate .reading path = .ok name := by
  unfold locate at h ⊢
  split_ifs at h ⊢
  all_goals exact follow_reading h

theorem read_insert (h : d.locate .writing path = .ok name) (bytes : Bytes) :
    Directory.read (d.insert name bytes) path = .ok bytes := by
  simp [read, locate_reading h, SortedMap.get?_insert]

theorem ne_empty_of_locate {access : Access} (h : d.locate access path = .ok name) : path ≠ "" := by
  rintro rfl
  cases h

theorem ne_empty_of_read (h : d.read path = .ok bytes) : path ≠ "" := by
  rintro rfl
  cases h

end Directory

/-- A store that holds tags of the given names, which count their ids from zero, and nothing else. -/
structure Store.Numbers (s : Store) (names : List String) : Prop where
  nextId : s.nextId = UInt64.ofNat names.length
  tags : ∀ name id, s.tags.get? name = some id ↔
    ∃ i, (names.map lowercase)[i]? = some name ∧ id = UInt64.ofNat i
  aliases : s.aliases = ∅
  preferences : s.preferences = ∅
  anonymous : s.anonymous = .hideAll

namespace Store.Numbers

variable {s : Store} {names : List String}

theorem empty : Store.empty.Numbers [] :=
  ⟨rfl, fun _ _ => ⟨nofun, nofun⟩, rfl, rfl, rfl⟩

theorem isFree_iff (h : s.Numbers names) (name : String) :
    s.IsFree name ↔ name ∉ names.map lowercase := by
  have htags : s.tags.get? name = none ↔ name ∉ names.map lowercase := by
    rw [Option.eq_none_iff_forall_ne_some, List.mem_iff_getElem?]
    constructor
    · rintro hnone ⟨i, hi⟩
      exact hnone _ ((h.tags name _).mpr ⟨i, hi, rfl⟩)
    · rintro hnot id hid
      obtain ⟨i, hi, -⟩ := (h.tags name id).mp hid
      exact hnot ⟨i, hi⟩
  have haliases : s.aliases.get? name = none := by
    rw [h.aliases]
    rfl
  rw [IsFree, htags, and_iff_left haliases]

theorem snoc (h : s.Numbers names) {name : String} (hfree : lowercase name ∉ names.map lowercase) :
    Numbers { s with nextId := s.nextId + 1, tags := s.tags.insert (lowercase name) s.nextId }
      (names ++ [name]) where
  nextId := by
    rw [h.nextId, List.length_append, UInt64.ofNat_add]
    rfl
  tags other id := by
    rw [SortedMap.get?_insert, List.map_append, List.map_singleton, h.nextId]
    simp only [getElem?_concat_eq_some_iff, List.length_map]
    split_ifs with hother
    · subst hother
      constructor
      · rintro ⟨⟩
        exact ⟨names.length, Or.inr ⟨rfl, rfl⟩, rfl⟩
      · rintro ⟨i, hi | ⟨rfl, -⟩, rfl⟩
        · exact (hfree (List.mem_of_getElem? hi)).elim
        · rfl
    · rw [h.tags]
      refine exists_congr fun i => and_congr_left fun _ => ?_
      exact (or_iff_left fun ⟨_, heq⟩ => hother heq.symm).symm
  aliases := h.aliases
  preferences := h.preferences
  anonymous := h.anonymous

theorem keys_subset (h : s.Numbers names) : s.tags.keys ⊆ names.map lowercase := by
  intro name hname
  obtain ⟨id, hid⟩ := SortedMap.mem_keys_iff.mp hname
  obtain ⟨i, hi, -⟩ := (h.tags name id).mp hid
  exact List.mem_of_getElem? hi

theorem size_tags_le (h : s.Numbers names) : s.tags.size ≤ names.length := by
  have hnodup : s.tags.keys.Nodup :=
    List.Pairwise.map Prod.fst (fun _ _ hlt => String.ne_of_lt hlt) s.tags.ascending
  have hle := (hnodup.subperm h.keys_subset).length_le
  rwa [SortedMap.keys, List.length_map, List.length_map] at hle

theorem isStorable (h : s.Numbers names) (hsize : names.length < 2 ^ 32)
    (hnames : ∀ name ∈ names, (utf8 (lowercase name)).length < 2 ^ 32) : s.IsStorable where
  tags := by
    refine ⟨h.size_tags_le.trans_lt hsize, fun name hname => ?_⟩
    obtain ⟨name, hmem, rfl⟩ := List.mem_map.mp (h.keys_subset hname)
    exact hnames name hmem
  aliases := by
    rw [h.aliases]
    exact ⟨by decide, nofun⟩
  preferences := by
    rw [h.preferences]
    decide

end Store.Numbers

namespace Command

theorem storeOfTags_snoc (tags : List String) (tag : String) :
    storeOfTags (tags ++ [tag]) =
      (storeOfTags tags).bind fun s => (s.createTag tag).map Prod.snd := by
  unfold storeOfTags
  simp only [List.foldlM_append, List.foldlM_cons, List.foldlM_nil, bind_pure]
  rfl

/-- The tags make a store as long as no two of their names have the same lower case. -/
theorem storeOfTags_cases (tags : List String) :
    ((tags.map lowercase).Nodup ∧ ∃ s, storeOfTags tags = .ok s ∧ s.Numbers tags) ∨
      (¬ (tags.map lowercase).Nodup ∧ ∃ e, storeOfTags tags = .error e) := by
  induction tags using List.reverseRecOn with
  | nil => exact Or.inl ⟨List.nodup_nil, _, rfl, .empty⟩
  | append_singleton tags tag ih =>
      rw [storeOfTags_snoc, List.map_append, List.map_singleton, ← List.concat_eq_append,
        List.nodup_concat]
      rcases ih with ⟨hnodup, s, hs, hnumbers⟩ | ⟨hnot, e, he⟩
      · rw [hs]
        by_cases hfree : s.IsFree (lowercase tag)
        · have hnew := (hnumbers.isFree_iff _).mp hfree
          have hcreate := Store.createTag_eq_ok_iff.mpr ⟨hfree, rfl, rfl⟩
          refine Or.inl ⟨⟨hnew, hnodup⟩, _, ?_, hnumbers.snoc hnew⟩
          simp only [Except.bind, hcreate, Except.map]
        · refine Or.inr ⟨fun ⟨hnew, _⟩ => hfree ((hnumbers.isFree_iff _).mpr hnew), ?_⟩
          cases hcreate : s.createTag tag with
          | ok made => exact (hfree (Store.createTag_eq_ok_iff.mp hcreate).1).elim
          | error e => exact ⟨e, by simp only [Except.bind, hcreate, Except.map]⟩
      · rw [he]
        exact Or.inr ⟨fun h => hnot h.2, e, rfl⟩

/-! ### Runs -/

variable {d : Directory} {path file : String} (environment : String → Option String)

theorem run_init (names : List String) (hfile : d.locate .writing path = .ok file) :
    ((names.map lowercase).Nodup ∧ ∃ s : Store, s.Numbers names ∧
        (init path names).run d environment = (⟨0, "", ""⟩, d.insert file s.save)) ∨
      (¬ (names.map lowercase).Nodup ∧ ∃ f : Failure,
        (init path names).run d environment = (.failed "" f, d)) := by
  rcases storeOfTags_cases names with ⟨hnodup, s, hs, hnumbers⟩ | ⟨hnot, e, he⟩
  · refine Or.inl ⟨hnodup, s, hnumbers, ?_⟩
    simp only [run, snapshotOfTags, hs, Directory.write, hfile, Except.map]
  · refine Or.inr ⟨hnot, ⟨e.message, none⟩, ?_⟩
    simp only [run, snapshotOfTags, he]

theorem run_search {bytes : Bytes} {s : Store} {viewer : Viewer} {words : List String}
    (hread : d.read path = .ok bytes) (hload : Store.load bytes = .ok s) :
    (search path viewer words).run d environment =
      (.ofPrinted (printSearch s environment viewer (String.intercalate " " words)), d) := by
  simp only [run, hread, printSearchBytes, hload]

end Command

open Arguments in
/-- A list of names makes `init` write the store that numbers them, if they differ in lower case and
the path is one of a file. Else it fails and leaves all files alone. A search leaves them alone too,
and prints the tree and the compiled query as far as there are any. -/
theorem init_writes_and_search_prints :
    (∀ (d : Directory) (environment : String → Option String) (path file : String)
        (names : List String), d.locate .writing path = .ok file → names ≠ [] →
      (∀ word ∈ path :: names, IsPlain word) →
      ∃ exit d', (read ("init" :: path :: names)).perform d environment = (exit, d') ∧
        (exit.code = 0 ↔ (names.map lowercase).Nodup) ∧
        (exit.code = 0 → ∃ s : Store, s.Numbers names ∧ d'.read path = .ok s.save ∧
          (names.length < 2 ^ 32 → (∀ name ∈ names, (utf8 (lowercase name)).length < 2 ^ 32) →
            Store.load s.save = .ok s) ∧
          ∀ other, other ≠ file → d'.get? other = d.get? other) ∧
        (exit.code ≠ 0 → exit.code = 1 ∧ d' = d)) ∧
    ∀ (d : Directory) (environment : String → Option String) (path : String) (bytes : Bytes)
        (s : Store) (viewer : Viewer) (first : String) (rest args : List String),
      d.read path = .ok bytes → Store.load bytes = .ok s → IsPlain path → IsPlain first →
      AsksSearch path (first :: rest) viewer args →
      ∃ exit, (read args).perform d environment = (exit, d) ∧
        let text := String.intercalate " " (first :: rest)
        (∀ e, Query.parse text = .error e → exit.code = 1 ∧ exit.output = "") ∧
        ∀ q, Query.parse text = .ok q →
          (∀ e, Config.ofEnvironment environment = .error e →
            exit.code = 1 ∧ exit.output = q.tree.render) ∧
          ∀ config, Config.ofEnvironment environment = .ok config →
            (∀ e, (compile s.services config viewer q).outcome = .error e →
              exit.code = 1 ∧ exit.output = q.tree.render) ∧
            ∀ compiled, (compile s.services config viewer q).outcome = .ok compiled →
              exit.code = 0 ∧ exit.output = q.tree.render ++ compiled.render := by
  constructor
  · intro d environment path file names hfile hnames hplain
    rw [read_init (Directory.ne_empty_of_locate hfile) hnames hplain, Request.perform]
    rcases Command.run_init environment names hfile with
      ⟨hnodup, s, hnumbers, hrun⟩ | ⟨hnot, f, hrun⟩
    · refine ⟨_, _, hrun, iff_of_true rfl hnodup, fun _ => ⟨s, hnumbers, ?_, ?_, ?_⟩, nofun⟩
      · exact Directory.read_insert hfile _
      · exact fun hsize hlengths => Store.load_save (hnumbers.isStorable hsize hlengths)
      · intro other hother
        rw [SortedMap.get?_insert, if_neg hother]
    · refine ⟨_, _, hrun, iff_of_false nofun hnot, nofun, fun _ => ⟨rfl, rfl⟩⟩
  · intro d environment path bytes s viewer first rest args hread hload hpath hfirst hargs
    rw [hargs.read_eq (Directory.ne_empty_of_read hread) hpath hfirst, Request.perform,
      Command.run_search environment hread hload]
    refine ⟨_, rfl, fun e he => ?_, fun q hq => ⟨fun e he => ?_, fun config hconfig =>
      ⟨fun e he => ?_, fun compiled hcompiled => ?_⟩⟩⟩
    · simp only [Command.printSearch, he]
      exact ⟨rfl, rfl⟩
    · simp only [Command.printSearch, hq, he]
      exact ⟨rfl, rfl⟩
    · simp only [Command.printSearch, hq, hconfig, he]
      exact ⟨rfl, rfl⟩
    · simp only [Command.printSearch, hq, hconfig, hcompiled]
      exact ⟨rfl, rfl⟩

open Arguments in
/-- In a directory with a store of two tags, a list of names that differ in case only changes
nothing, another list takes the place of the store, and a search prints all there is to print. -/
theorem init_writes_and_search_prints_of_two_tags :
    let s : Store := { Store.empty with nextId := 2, tags := .ofList [("ας", 0), ("dog", 1)] }
    let d : Directory := .ofList [("notes", [0x21]), ("tags.db", s.save)]
    (∃ exit, (read ["init", "./tags.db", "Fox", "fOX"]).perform d (fun _ => none) = (exit, d) ∧
      exit.code = 1) ∧
    (∃ exit d' s', (read ["init", "./tags.db", "Fox"]).perform d (fun _ => none) = (exit, d') ∧
      exit.code = 0 ∧ d'.read "./tags.db" = .ok s'.save ∧ Store.load s'.save = .ok s' ∧
      s'.tags.get? "fox" = some 0 ∧ d'.get? "notes" = some [0x21]) ∧
    ∃ exit, (read ["search", "-v", "+7", "tags.db", "Ας", "-dog"]).perform d (fun _ => none) =
      (exit, d) ∧ exit.code = 0 := by
  intro s d
  have hstorable : s.IsStorable := by decide +kernel
  have hwriting : d.locate .writing "./tags.db" = .ok "tags.db" := by decide +kernel
  obtain ⟨hinit, hsearch⟩ := init_writes_and_search_prints
  refine ⟨?_, ?_, ?_⟩
  · obtain ⟨exit, d', hrun, hcode, -, hfailed⟩ := hinit d (fun _ => none) "./tags.db" "tags.db"
      ["Fox", "fOX"] hwriting (by decide) (by decide)
    have hne : exit.code ≠ 0 := fun h => absurd (hcode.mp h) (by decide +kernel)
    obtain ⟨hone, rfl⟩ := hfailed hne
    exact ⟨exit, hrun, hone⟩
  · obtain ⟨exit, d', hrun, hcode, hwritten, -⟩ := hinit d (fun _ => none) "./tags.db" "tags.db"
      ["Fox"] hwriting (by decide) (by decide)
    have hzero : exit.code = 0 := hcode.mpr (by decide +kernel)
    obtain ⟨s', hnumbers, hread, hload, hother⟩ := hwritten hzero
    refine ⟨exit, d', s', hrun, hzero, hread, hload (by decide) (by decide +kernel), ?_, ?_⟩
    · exact (hnumbers.tags _ _).mpr ⟨0, by decide +kernel, rfl⟩
    · rw [hother "notes" (by decide)]
      decide +kernel
  · obtain ⟨exit, hrun, -, hparsed⟩ := hsearch d (fun _ => none) "tags.db" s.save s (.user 7) "Ας"
      ["-dog"] ["search", "-v", "+7", "tags.db", "Ας", "-dog"] (by decide +kernel)
      (Store.load_save hstorable) (by decide) (by decide)
      (.beforeSnapshot (.nextWord (by decide) (by decide)))
    let q : Query :=
      ⟨.tag ⟨false, ⟨.word, "Ας", 0⟩⟩, [.tag ⟨true, ⟨.word, "dog", 6⟩⟩]⟩
    obtain ⟨-, hconfigured⟩ := hparsed q (by decide +kernel)
    obtain ⟨-, hcompiled⟩ := hconfigured {} (by decide +kernel)
    have hok : (compile s.services {} (.user 7) q).outcome.isOk = true := by decide +kernel
    cases houtcome : (compile s.services {} (.user 7) q).outcome with
    | error e =>
        rw [houtcome] at hok
        cases hok
    | ok compiled =>
        exact ⟨exit, hrun, (hcompiled compiled houtcome).1⟩

end TagQuery
