import TagQuery.Command.Arguments

/-!
Command lines that ask for a command. Words without a dash in front are taken as they stand, and a
viewer is named by an option before the snapshot or right after it.
-/

namespace TagQuery.Arguments

/-- A word that does not begin with a dash. -/
def IsPlain (word : String) : Prop :=
  word.toList.head? ≠ some '-'

instance (word : String) : Decidable (IsPlain word) :=
  inferInstanceAs (Decidable (_ ≠ _))

theorem IsPlain.form_eq {word : String} (h : IsPlain word) : form word.toList = .value := by
  unfold IsPlain at h
  unfold form
  split <;> simp_all

theorem readTags_eq_run (snapshot : String) (tags : List String) {words : List String}
    (hplain : ∀ word ∈ words, IsPlain word) (hne : tags.reverse ++ words ≠ []) :
    readTags snapshot tags words = .run (.init snapshot (tags.reverse ++ words)) := by
  induction words generalizing tags with
  | nil =>
      rw [List.append_nil] at hne ⊢
      simp [readTags, List.reverse_ne_nil_iff.mp hne]
  | cons word words ih =>
      obtain ⟨hword, hwords⟩ := List.forall_mem_cons.mp hplain
      simp only [readTags, hword.form_eq]
      rw [ih (word :: tags) hwords (by simp), List.reverse_cons, List.append_assoc,
        List.singleton_append]

theorem read_init {path : String} {names : List String} (hpath : path ≠ "") (hnames : names ≠ [])
    (hplain : ∀ word ∈ path :: names, IsPlain word) :
    read ("init" :: path :: names) = .run (.init path names) := by
  obtain ⟨hpathPlain, hnamesPlain⟩ := List.forall_mem_cons.mp hplain
  have hinit : form "init".toList = .value := by decide
  simp only [read, hinit, readInit, hpathPlain.form_eq, if_neg hpath]
  exact readTags_eq_run path [] hnamesPlain hnames

/-- The ways to name a user as the viewer. After the snapshot, a word in which the text follows the
letter of the option would be the first of the query. -/
inductive NamesViewer (afterSnapshot : Bool) (id : Id) : List String → Prop where
  | nextWord {option text : String} (hoption : option ∈ ["-v", "--viewer"])
      (htext : Text.readDecimal text.toList = .ok id) :
      NamesViewer afterSnapshot id [option, text]
  | attached {text : String} (htext : Text.readDecimal text.toList = .ok id) :
      NamesViewer afterSnapshot id ["--viewer=" ++ text]
  | attachedToLetter {sign text : String} (hbefore : afterSnapshot = false)
      (hsign : sign ∈ ["", "="]) (htext : Text.readDecimal text.toList = .ok id) :
      NamesViewer afterSnapshot id ["-v" ++ (sign ++ text)]

namespace SearchArguments

variable {a a' : SearchArguments} {word : String} {words rest : List String} {text : List Char}

theorem read_cons_of_viewer (attached? : Option (List Char))
    (hreading : reading a.snapshot?.isSome word.toList = .viewer attached?)
    (htext : textOf attached? words = some (text, rest)) (ha : a.withViewer? text = some a') :
    a.read (word :: words) = a'.read rest := by
  rw [read, hreading]
  dsimp only
  split
  case h_1 hnone => cases hnone.symm.trans htext
  case h_2 text' rest' hsome =>
    cases hsome.symm.trans htext
    rw [ha]

theorem read_cons_of_snapshot (hword : IsPlain word) (hne : word ≠ "") (ha : a.snapshot? = none) :
    a.read (word :: words) = { a with snapshot? := some word }.read words := by
  rw [read]
  simp [reading, hword.form_eq, ha, hne]

theorem read_cons_of_query {snapshot : String} (hword : IsPlain word)
    (ha : a.snapshot? = some snapshot) :
    a.read (word :: words) = .run (.search snapshot a.viewer (word :: words)) := by
  rw [read]
  simp [reading, hword.form_eq, ha, request]

/-- The text of a whole number begins with no equals sign and is not empty. -/
theorem exists_cons_of_readDecimal {id : Id} (h : Text.readDecimal text = .ok id) :
    ∃ c cs, text = c :: cs ∧ c ≠ '=' := by
  cases text with
  | nil => simp [Text.readDecimal, Text.readUnsigned] at h
  | cons c cs =>
      refine ⟨c, cs, rfl, ?_⟩
      rintro rfl
      simp [Text.readDecimal, Text.readUnsigned, Text.readDigits] at h

/-- An option that names a viewer is read before the words that follow it. -/
theorem read_append_of_namesViewer {afterSnapshot : Bool} {option : List String} {id : Id}
    (hoption : NamesViewer afterSnapshot id option) (hafter : a.snapshot?.isSome = afterSnapshot)
    (ha : a.viewer? = none) :
    a.read (option ++ words) = { a with viewer? := some id }.read words := by
  subst hafter
  have hviewer {text : String} (htext : Text.readDecimal text.toList = .ok id) :
      a.withViewer? text.toList = some { a with viewer? := some id } := by
    simp [withViewer?, ha, htext]
  cases hoption with
  | @nextWord option text hoption htext =>
      refine read_cons_of_viewer none ?_ rfl (hviewer htext)
      simp only [List.mem_cons, List.not_mem_nil, or_false] at hoption
      rcases hoption with rfl | rfl <;> cases a.snapshot?.isSome <;> decide
  | attached htext =>
      refine read_cons_of_viewer (some _) ?_ rfl (hviewer htext)
      rw [String.toList_append]
      rfl
  | @attachedToLetter sign text hbefore hsign htext =>
      refine read_cons_of_viewer (some _) ?_ rfl (hviewer htext)
      obtain ⟨c, cs, hcons, hc⟩ := exists_cons_of_readDecimal htext
      rw [hbefore, String.toList_append, String.toList_append, hcons]
      simp only [List.mem_cons, List.not_mem_nil, or_false] at hsign
      rcases hsign with rfl | rfl
      · simp [reading, form, hc]
      · rfl

end SearchArguments

/-- The arguments that ask for a search, with the viewer that they name. -/
inductive AsksSearch (path : String) (words : List String) : Viewer → List String → Prop where
  | anonymous : AsksSearch path words .anonymous ("search" :: path :: words)
  | beforeSnapshot {option : List String} {id : Id} (hoption : NamesViewer false id option) :
      AsksSearch path words (.user id) ("search" :: (option ++ path :: words))
  | afterSnapshot {option : List String} {id : Id} (hoption : NamesViewer true id option) :
      AsksSearch path words (.user id) ("search" :: path :: (option ++ words))

theorem AsksSearch.read_eq {path first : String} {rest args : List String} {viewer : Viewer}
    (h : AsksSearch path (first :: rest) viewer args) (hpath : path ≠ "")
    (hpathPlain : IsPlain path) (hfirst : IsPlain first) :
    read args = .run (.search path viewer (first :: rest)) := by
  have hread (words : List String) :
      read ("search" :: words) = SearchArguments.read {} words := by
    have hsearch : form "search".toList = .value := by decide
    simp only [read, hsearch]
  cases h with
  | anonymous =>
      rw [hread, SearchArguments.read_cons_of_snapshot hpathPlain hpath rfl,
        SearchArguments.read_cons_of_query hfirst rfl]
      rfl
  | beforeSnapshot hoption =>
      rw [hread, SearchArguments.read_append_of_namesViewer hoption rfl rfl,
        SearchArguments.read_cons_of_snapshot hpathPlain hpath rfl,
        SearchArguments.read_cons_of_query hfirst rfl]
      rfl
  | afterSnapshot hoption =>
      rw [hread, SearchArguments.read_cons_of_snapshot hpathPlain hpath rfl,
        SearchArguments.read_append_of_namesViewer hoption rfl rfl,
        SearchArguments.read_cons_of_query hfirst rfl]
      rfl

end TagQuery.Arguments
