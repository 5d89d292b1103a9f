import TagQuery.Proofs.Consistency
import TagQuery.Proofs.Respelling

/-!
Which words of a query can stand for one another. On a store that has been changed in any way since
it was new, the names of one tag and all their spellings can. And when a tag takes another name, its
queries go on as before with the new name in them.
-/

namespace TagQuery

namespace Store

open Text

variable {s s' : Store} {change : Change} {name name' word word' : String} {id : Id}

/-- A store in which each name stands for one thing and is found by any spelling. -/
structure WellNamed (s : Store) : Prop where
  apart : s.NamesApart
  tags : Folded s.tags
  aliases : Folded s.aliases

theorem wellNamed_empty : Store.empty.WellNamed :=
  ⟨namesApart_empty, nofun, nofun⟩

theorem WellNamed.of_accepts (h : s.WellNamed) (haccepts : s.Accepts change s') : s'.WellNamed := by
  have hapart := h.apart.of_accepts haccepts
  cases haccepts with
  | createTag hfree => exact ⟨hapart, h.tags.insert _ _, h.aliases⟩
  | renameTag hfree htag => exact ⟨hapart, (h.tags.erase _).insert _ _, h.aliases⟩
  | addAlias hfree htarget => exact ⟨hapart, h.tags, h.aliases.insert _ _⟩
  | setPreferences => exact ⟨hapart, h.tags, h.aliases⟩
  | setAnonymous => exact ⟨hapart, h.tags, h.aliases⟩

/-- However many ids have been given out. -/
theorem wellNamed_of_run {past : List (Moment Store Event)} (h : Run Step .empty past s) :
    s.WellNamed := by
  induction h with
  | nil => exact wellNamed_empty
  | snoc _ hstep ih =>
      cases hstep with
      | change change => exact after_of_forall_accepts WellNamed ih fun _ => ih.of_accepts
      | reload hstorable hload =>
          cases (load_save hstorable).symm.trans hload
          exact ih

/-- A name that stands for an id: that of the tag, or an alias. -/
def IsNamed (s : Store) (name : String) (id : Id) : Prop :=
  s.tags.get? name = some id ∨ s.aliases.get? name = some id

/-- Words that are spellings of one word, or of names of one tag. -/
def AreSynonyms (s : Store) (word word' : String) : Prop :=
  lowercase word = lowercase word' ∨
    ∃ name name' id, s.IsNamed name id ∧ s.IsNamed name' id ∧
      lowercase word = lowercase name ∧ lowercase word' = lowercase name'

theorem WellNamed.resolve_eq (h : s.WellNamed) (hnamed : s.IsNamed name id)
    (hword : lowercase word = lowercase name) : s.resolve word = some id := by
  have hresolve : s.resolve word =
      (s.tags.get? (lowercase name)).or (s.aliases.get? (lowercase name)) := by
    rw [← hword]
    rfl
  rcases hnamed with htag | halias
  · rw [hresolve, h.tags name id htag, htag]
    rfl
  · have hnone := (h.apart name).resolve_right (by simp [halias])
    rw [hresolve, h.aliases name id halias, hnone, halias]
    rfl

theorem WellNamed.resolve_eq_of_areSynonyms (h : s.WellNamed) (hwords : s.AreSynonyms word word') :
    s.resolve word = s.resolve word' := by
  rcases hwords with hsame | ⟨name, name', id, hname, hname', hword, hword'⟩
  · unfold resolve
    rw [hsame]
  · rw [h.resolve_eq hname hword, h.resolve_eq hname' hword']

/-- The word that a tag has after it has taken another name. -/
def renamed (source target word : String) : String :=
  if lowercase word = lowercase source then target else word

theorem resolve_renamed {source target : String} (h : s.renameTag source target = .ok s')
    (hword : lowercase word ≠ lowercase target) :
    s.resolve word = s'.resolve (renamed source target word) := by
  obtain ⟨hfree, id, htag, rfl⟩ := renameTag_eq_ok_iff.mp h
  unfold renamed
  split_ifs with hsource
  · simp [resolve, hsource, htag, SortedMap.get?_insert]
  · simp [resolve, SortedMap.get?_insert, SortedMap.get?_erase, hsource, hword]

theorem visibility_of_renameTag {source target : String} (h : s.renameTag source target = .ok s')
    (viewer : Viewer) : s.visibility viewer = s'.visibility viewer := by
  obtain ⟨-, id, -, rfl⟩ := renameTag_eq_ok_iff.mp h
  rfl

end Store

open Text

/-- What a query compiles to on a store depends on the words of its tags only by what they resolve
to. So the names of a tag can stand for one another in any spelling, after any changes of the store.
When a tag takes another name that is a word, there is a query with that name for its old one, which
compiles as the query did before. -/
theorem outcome_eq_of_alike :
    (∀ (s s' : Store) (q q' : Query), (∀ viewer, s.visibility viewer = s'.visibility viewer) →
      q.tree.Alike (fun word word' => s.resolve word = s'.resolve word') q'.tree →
      ∀ config viewer, (compile s.services config viewer q).outcome =
        (compile s'.services config viewer q').outcome) ∧
    (∀ past s (q q' : Query), Run Store.Step .empty past s → q.tree.Alike s.AreSynonyms q'.tree →
      ∀ config viewer, (compile s.services config viewer q).outcome =
        (compile s.services config viewer q').outcome) ∧
    ∀ (s s' : Store) source target text q, s.renameTag source target = .ok s' →
      TokenKind.word.Admits target → Query.parse text = .ok q →
      (∀ word ∈ q.tree.tagWords, lowercase word ≠ lowercase target) →
      let Renamed := Grammar.Rewords (Store.renamed source target)
      (∃ text' q', Query.parse text' = .ok q' ∧ q.tree.Alike Renamed q'.tree) ∧
      ∀ q', q.tree.Alike Renamed q'.tree →
        ∀ config viewer, (compile s.services config viewer q).outcome =
          (compile s'.services config viewer q').outcome := by
  refine ⟨fun s s' q q' => Store.compile_outcome_eq, ?_, ?_⟩
  · intro past s q q' hrun halike
    have hnamed := Store.wellNamed_of_run hrun
    exact Store.compile_outcome_eq (fun _ => rfl)
      (halike.imp_of_mem _ fun _ _ _ => hnamed.resolve_eq_of_areSynonyms)
  · intro s s' source target text q hrename htarget hparse hwords Renamed
    refine ⟨exists_parse_reworded hparse fun word hword => ?_, fun q' halike => ?_⟩
    · unfold Store.renamed
      split_ifs
      · exact htarget
      · exact hword
    · refine Store.compile_outcome_eq (Store.visibility_of_renameTag hrename)
        (halike.imp_of_mem _ ?_)
      rintro word hword _ rfl
      exact Store.resolve_renamed hrename (hwords word hword)

/-- A tag whose name ends in a sigma, under its alias and under the name that it takes later. Another
tag that nobody has made stays unknown. -/
theorem outcome_eq_of_alike_of_final_sigma :
    let s := Store.empty.after (.createTag "ΑΣ") |>.after (.addAlias "neko" "ας")
    ∃ s' q q' q'', s.renameTag "Ας" "Felis" = .ok s' ∧
      Query.parse "-ΑΣ fox" = .ok q ∧ Query.parse "-NEKO Fox" = .ok q' ∧
      Query.parse "-Felis fox" = .ok q'' ∧
      ∀ config viewer,
        (compile s.services config viewer q).outcome =
            (compile s.services config viewer q').outcome ∧
          (compile s.services config viewer q).outcome =
            (compile s'.services config viewer q'').outcome := by
  intro s
  let query (first second : String) (position : Nat) : Query :=
    ⟨.tag ⟨true, ⟨.word, first, 1⟩⟩, [.tag ⟨false, ⟨.word, second, position⟩⟩]⟩
  have halike {R : String → String → Prop} {first second first' second' : String}
      (position position' : Nat) (hfirst : R first first') (hsecond : R second second') :
      (query first second position).tree.Alike R (query first' second' position').tree :=
    .other rfl rfl (.cons (.tag rfl hfirst .nil) (.cons (.tag rfl hsecond .nil) .nil))
  have hrun := (Run.nil.snoc (Store.Step.change .empty (.createTag "ΑΣ"))).snoc
    (.change _ (.addAlias "neko" "ας"))
  have hsynonyms : s.AreSynonyms "ΑΣ" "NEKO" :=
    Or.inr ⟨"ας", "neko", 0, Or.inl (by decide +kernel), Or.inr (by decide +kernel),
      by decide +kernel, by decide +kernel⟩
  have hspelling : s.AreSynonyms "fox" "Fox" := Or.inl (by decide +kernel)
  obtain ⟨s', hrename⟩ : ∃ s', s.renameTag "Ας" "Felis" = .ok s' :=
    ⟨_, Store.renameTag_eq_ok_iff.mpr
      ⟨by constructor <;> decide +kernel, 0, by decide +kernel, rfl⟩⟩
  have hparse : Query.parse "-ΑΣ fox" = .ok (query "ΑΣ" "fox" 6) := by decide +kernel
  have hwords : ∀ word ∈ (query "ΑΣ" "fox" 6).tree.tagWords,
      lowercase word ≠ lowercase "Felis" := by
    rw [Query.tagWords_tree]
    decide +kernel
  have htarget : TokenKind.word.Admits "Felis" := by
    refine ⟨'F', ['e', 'l', 'i', 's'], by decide +kernel, by decide, fun d hd => ?_⟩
    fin_cases hd <;> decide +kernel
  have hfelis : "Felis" = Store.renamed "Ας" "Felis" "ΑΣ" := by decide +kernel
  have hfox : "fox" = Store.renamed "Ας" "Felis" "fox" := by decide +kernel
  obtain ⟨-, hsame, hrenamed⟩ := outcome_eq_of_alike
  obtain ⟨-, hafter⟩ := hrenamed s s' "Ας" "Felis" _ _ hrename htarget hparse hwords
  refine ⟨s', _, query "NEKO" "Fox" 6, query "Felis" "fox" 7, hrename, hparse, by decide +kernel,
    by decide +kernel, fun config viewer => ⟨?_, ?_⟩⟩
  · exact hsame _ s _ _ hrun (halike 6 6 hsynonyms hspelling) config viewer
  · exact hafter _ (halike 6 7 hfelis hfox) config viewer

end TagQuery
