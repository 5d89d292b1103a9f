import TagQuery.Compile
import TagQuery.Proofs.Meaning

/-!
What the pieces of a condition mean. A piece is given the number of the parameters before it, and so
it means the same wherever its parameters come to stand, whatever stands before and after them.
-/

namespace TagQuery

namespace Piece

variable {post : Post}

/-- A piece says of a post what a proposition says, with any parameters around its own. -/
def Means (post : Post) (piece : Nat → Piece) (meaning : Prop) : Prop :=
  ∀ before after : List Param,
    (piece before.length).predicate.Holds post (before ++ (piece before.length).params ++ after) ↔
      meaning

/-- Pieces side by side all hold if a proposition does, with any parameters around theirs. -/
def AllMean (post : Post) (pieces : List (Nat → Piece)) (meaning : Prop) : Prop :=
  ∀ before after : List Param,
    (∀ part ∈ (sequence before.length pieces).1,
      part.Holds post (before ++ (sequence before.length pieces).2 ++ after)) ↔ meaning

/-- One of some pieces side by side holds if a proposition does, with any parameters around theirs. -/
def SomeMeans (post : Post) (pieces : List (Nat → Piece)) (meaning : Prop) : Prop :=
  ∀ before after : List Param,
    (∃ part ∈ (sequence before.length pieces).1,
      part.Holds post (before ++ (sequence before.length pieces).2 ++ after)) ↔ meaning

theorem Means.congr {piece : Nat → Piece} {meaning meaning' : Prop} (h : Means post piece meaning)
    (hiff : meaning ↔ meaning') : Means post piece meaning' :=
  fun before after => (h before after).trans hiff

theorem AllMean.congr {pieces : List (Nat → Piece)} {meaning meaning' : Prop}
    (h : AllMean post pieces meaning) (hiff : meaning ↔ meaning') : AllMean post pieces meaning' :=
  fun before after => (h before after).trans hiff

theorem getElem?_append_singleton_append {α : Type} (before after : List α) (x : α) :
    (before ++ [x] ++ after)[before.length]? = some x := by
  rw [List.append_assoc, List.getElem?_append_right (le_refl _), Nat.sub_self]
  rfl

/-- A leaf reads the one parameter that is pushed for it. -/
theorem means_single {predicate : Nat → Predicate} {param : Param} {meaning : Prop}
    (h : ∀ (index : Nat) (params : List Param), params[index]? = some param →
      ((predicate index).Holds post params ↔ meaning)) :
    Means post (single predicate param) meaning :=
  fun before after => h _ _ (getElem?_append_singleton_append before after param)

theorem means_compare (column : Column) (comparator : Comparator) (value : Param) :
    Means post (single (.compare column comparator) value)
      (post.compares column comparator value) := by
  apply means_single
  intro index params hparam
  simp only [Predicate.Holds, hparam, Option.some.injEq, exists_eq_left']

/-- A leaf that relates the post to an id relates it to its parameter. -/
theorem means_relation {predicate : Nat → Predicate} {relation : Id → Prop}
    (h : ∀ index params, (predicate index).Holds post params ↔
      ∃ id, params[index]? = some (.id id) ∧ relation id) (id : Id) :
    Means post (single predicate (.id id)) (relation id) := by
  apply means_single
  intro index params hparam
  rw [h, hparam]
  simp only [Option.some.injEq, Param.id.injEq, exists_eq_left']

theorem means_contains (column : Column) (text : String) :
    Means post (single (.contains column) (.text text)) (post.contains column text) := by
  apply means_single
  intro index params hparam
  simp only [Predicate.Holds, hparam, Option.some.injEq, Param.text.injEq, exists_eq_left']

theorem means_hasTag (id : Id) : Means post (single .hasTag (.id id)) (post.carries id) :=
  means_relation (fun _ _ => Iff.rfl) id

theorem means_not {predicate : Nat → Predicate} {param : Param} {meaning : Prop}
    (h : Means post (single predicate param) meaning) :
    Means post (single (fun index => .not (predicate index)) param) (¬meaning) :=
  fun before after => not_congr (h before after)

theorem means_never : Means post (fun _ => ⟨.never, []⟩) False :=
  fun _ _ => Iff.rfl

theorem means_always : Means post (fun _ => ⟨.always, []⟩) True :=
  fun _ _ => Iff.rfl

section

variable (before own later after : List Param)

theorem params_own : before ++ (own ++ later) ++ after = before ++ own ++ (later ++ after) := by
  simp only [List.append_assoc]

theorem params_later : before ++ (own ++ later) ++ after = before ++ own ++ later ++ after := by
  simp only [List.append_assoc]

end

theorem sequence_cons (before : List Param) (piece : Nat → Piece) (pieces : List (Nat → Piece)) :
    sequence before.length (piece :: pieces) =
      ((piece before.length).predicate ::
          (sequence (before ++ (piece before.length).params).length pieces).1,
        (piece before.length).params ++
          (sequence (before ++ (piece before.length).params).length pieces).2) := by
  rw [sequence, List.length_append]

variable {piece : Nat → Piece} {pieces more : List (Nat → Piece)} {meaning rest : Prop}

theorem allMean_nil : AllMean post [] True :=
  fun _ _ => ⟨fun _ => trivial, fun _ => nofun⟩

/-- The parameters of the later pieces come after those of the first. -/
theorem Means.cons_allMean (hpiece : Means post piece meaning) (hpieces : AllMean post pieces rest) :
    AllMean post (piece :: pieces) (meaning ∧ rest) := by
  intro before after
  rw [sequence_cons, List.forall_mem_cons]
  apply and_congr
  · rw [params_own]
    exact hpiece before _
  · rw [params_later]
    exact hpieces (before ++ (piece before.length).params) after

theorem someMeans_nil : SomeMeans post [] False :=
  fun _ _ => ⟨nofun, nofun⟩

theorem Means.cons_someMeans (hpiece : Means post piece meaning)
    (hpieces : SomeMeans post pieces rest) : SomeMeans post (piece :: pieces) (meaning ∨ rest) := by
  intro before after
  simp only [sequence_cons, List.mem_cons, exists_eq_or_imp]
  apply or_congr
  · rw [params_own]
    exact hpiece before _
  · rw [params_later]
    exact hpieces (before ++ (piece before.length).params) after

theorem sequence_append (before : List Param) (pieces more : List (Nat → Piece)) :
    sequence before.length (pieces ++ more) =
      ((sequence before.length pieces).1 ++
          (sequence (before ++ (sequence before.length pieces).2).length more).1,
        (sequence before.length pieces).2 ++
          (sequence (before ++ (sequence before.length pieces).2).length more).2) := by
  induction pieces generalizing before with
  | nil => simp only [sequence, List.nil_append, List.append_nil]
  | cons piece pieces ih =>
      simp only [List.cons_append, sequence_cons, ih, List.append_assoc]

theorem AllMean.append (hpieces : AllMean post pieces meaning) (hmore : AllMean post more rest) :
    AllMean post (pieces ++ more) (meaning ∧ rest) := by
  intro before after
  rw [sequence_append, List.forall_mem_append]
  apply and_congr
  · rw [params_own]
    exact hpieces before _
  · rw [params_later]
    exact hmore (before ++ (sequence before.length pieces).2) after

section

variable {α : Type} {xs : List α} {lower : α → Nat → Piece} {reading : α → Prop}

theorem allMean_map (h : ∀ x ∈ xs, Means post (lower x) (reading x)) :
    AllMean post (xs.map lower) (∀ x ∈ xs, reading x) := by
  induction xs with
  | nil => simpa using allMean_nil
  | cons x xs ih =>
      obtain ⟨hx, hxs⟩ := List.forall_mem_cons.mp h
      rw [List.forall_mem_cons]
      exact hx.cons_allMean (ih hxs)

theorem someMeans_map (h : ∀ x ∈ xs, Means post (lower x) (reading x)) :
    SomeMeans post (xs.map lower) (∃ x ∈ xs, reading x) := by
  induction xs with
  | nil => simpa using someMeans_nil
  | cons x xs ih =>
      obtain ⟨hx, hxs⟩ := List.forall_mem_cons.mp h
      simp only [List.mem_cons, exists_eq_or_imp]
      exact hx.cons_someMeans (ih hxs)

end

/-- A disjunction means that one of its pieces does. -/
theorem SomeMeans.means_any (h : SomeMeans post pieces meaning) :
    Means post (any pieces) meaning := by
  intro before after
  rw [any, Predicate.holds_any]
  exact h before after

end Piece

open Piece

/-! ### Clauses -/

/-- What a test for a tag says, with the ids of a table. -/
def TagTest.Holds (table : TagTable) (post : Post) (test : TagTest) : Prop :=
  if test.negated then ¬∃ id, table.id? test.name = some id ∧ post.carries id
  else ∃ id, table.id? test.name = some id ∧ post.carries id

/-- What a clause says of a post. An order says nothing. -/
def Clause.Holds (legacyLessThan : Bool) (table : TagTable) (post : Post) : Clause → Prop
  | .tag test => test.Holds table post
  | .alternatives tests => ∃ test ∈ tests, test.Holds table post
  | .user operator id => post.compares .accountId (operator.comparator legacyLessThan) (.id id)
  | .rating value => post.compares .rating .equal (.text value.keyword)
  | .status value => post.compares .status .equal (.text value.keyword)
  | .fileType value => post.compares .fileType .equal (.text value.keyword)
  | .text column operator value =>
    post.compares column (operator.comparator legacyLessThan) (.text value)
  | .contains columns value => ∃ column ∈ columns, post.contains column value
  | .childOf id => post.childOf id
  | .parentOf id => post.parentOf id
  | .inPool id => post.inPool id
  | .sort _ => True

variable {post : Post} {table : TagTable} {legacyLessThan : Bool}

/-- The piece of a test does not look at the parameters before it to tell which of four it is. -/
theorem TagTest.piece_eq (test : TagTest) : test.piece table =
    match table.id? test.name, test.negated with
    | some id, false => single .hasTag (.id id)
    | some id, true => single (fun param => .not (.hasTag param)) (.id id)
    | none, false => fun _ => ⟨.never, []⟩
    | none, true => fun _ => ⟨.always, []⟩ := by
  funext base
  unfold TagTest.piece
  cases table.id? test.name <;> cases test.negated <;> rfl

theorem TagTest.means_piece (test : TagTest) :
    Means post (test.piece table) (test.Holds table post) := by
  rw [piece_eq, TagTest.Holds]
  cases hid : table.id? test.name with
  | some id =>
      have hcarried : post.carries id ↔ ∃ id', some id = some id' ∧ post.carries id' := by
        simp only [Option.some.injEq, exists_eq_left']
      cases test.negated with
      | false => exact (means_hasTag id).congr hcarried
      | true => exact (means_not (means_hasTag id)).congr (not_congr hcarried)
  | none =>
      have hcarried : ¬∃ id, none = some id ∧ post.carries id := fun ⟨_, hsome, _⟩ => nomatch hsome
      cases test.negated with
      | false => exact means_never.congr (iff_of_false not_false hcarried)
      | true => exact means_always.congr (iff_of_true trivial hcarried)

theorem Clause.means_piece? {clause : Clause} {piece : Nat → Piece}
    (h : clause.piece? legacyLessThan table = some piece) :
    Means post piece (clause.Holds legacyLessThan table post) := by
  cases clause with
  | tag test =>
      cases h
      exact test.means_piece
  | alternatives tests =>
      cases h
      exact (someMeans_map fun test _ => test.means_piece).means_any
  | contains columns value =>
      cases h
      exact (someMeans_map fun column _ => means_contains column value).means_any
  | childOf id | parentOf id | inPool id =>
      cases h
      exact means_relation (fun _ _ => Iff.rfl) id
  | sort order => cases h
  | user | rating | status | fileType | text =>
      cases h
      exact means_compare _ _ _

/-- The clauses that leave no piece say nothing. -/
theorem Clause.holds_of_piece?_eq_none {clause : Clause}
    (h : clause.piece? legacyLessThan table = none) : clause.Holds legacyLessThan table post := by
  cases clause with
  | sort order => trivial
  | _ => cases h

theorem Clause.allMean_pieces (clauses : List Clause) :
    AllMean post (clauses.filterMap (Clause.piece? legacyLessThan table))
      (∀ clause ∈ clauses, clause.Holds legacyLessThan table post) := by
  induction clauses with
  | nil => simpa using allMean_nil
  | cons clause clauses ih =>
      rw [List.filterMap_cons, List.forall_mem_cons]
      cases hpiece : clause.piece? legacyLessThan table with
      | none =>
          have hclause : clause.Holds legacyLessThan table post :=
            Clause.holds_of_piece?_eq_none hpiece
          simpa only [hclause, true_and] using ih
      | some piece => exact (Clause.means_piece? hpiece).cons_allMean ih

namespace Draft

/-- What a draft admits where it leaves out the ratings that are hidden, and for the status. -/
def Admits (post : Post) (d : Draft) (config : Config) (visibility? : Option Visibility) : Prop :=
  (∀ rating ∈ visibility?.elim [] Visibility.hidden,
    post.compares .rating .notEqual (.text rating.keyword)) ∧
  (d.constrainsStatus = false → config.hideDeleted = true →
    post.compares .status .equal (.text PostStatus.ok.keyword))

theorem allMean_exclusions (d : Draft) (config : Config) (visibility? : Option Visibility) :
    AllMean post (d.exclusions config visibility?) (d.Admits post config visibility?) := by
  refine (allMean_map fun rating _ => means_compare _ _ _).append ?_
  split
  next h =>
    rw [Bool.and_eq_true, Bool.not_eq_true'] at h
    refine ((means_compare _ _ _).cons_allMean allMean_nil).congr ?_
    exact ⟨fun hok _ _ => hok.1, fun hok => ⟨hok h.1 h.2, trivial⟩⟩
  next h =>
    rw [Bool.and_eq_true, Bool.not_eq_true'] at h
    refine allMean_nil.congr ?_
    exact ⟨fun _ hstatus hhide => absurd ⟨hstatus, hhide⟩ h, fun _ => trivial⟩

/-- The condition of a draft holds of the posts that its clauses hold of and that it admits. -/
theorem holds_finish_iff (d : Draft) (config : Config) (visibility? : Option Visibility) :
    (d.finish config visibility?).Holds post ↔
      (∀ clause ∈ d.clauses, clause.Holds config.legacyLessThan d.table post) ∧
        d.Admits post config visibility? := by
  let params := (sequence 0 (d.pieces config)).2
  let more := (sequence params.length (d.exclusions config visibility?)).2
  have hown (parts : List Predicate) :
      (∀ part ∈ (if d.clauses.length = 1 then parts else [Predicate.all parts]),
        part.Holds post (params ++ more)) ↔ ∀ part ∈ parts, part.Holds post (params ++ more) := by
    split
    · exact Iff.rfl
    · rw [List.forall_mem_singleton, Predicate.holds_all]
  have hclauses : AllMean post (d.pieces config)
      (∀ clause ∈ d.clauses, clause.Holds config.legacyLessThan d.table post) :=
    Clause.allMean_pieces d.clauses
  have hexclusions : AllMean post (d.exclusions config visibility?)
      (d.Admits post config visibility?) := d.allMean_exclusions config visibility?
  have hadded := hexclusions params []
  rw [List.append_nil] at hadded
  show (Predicate.all _).Holds post (params ++ more) ↔ _
  rw [Predicate.holds_all, List.forall_mem_append, hown]
  exact and_congr (hclauses [] more) hadded

end Draft

end TagQuery
