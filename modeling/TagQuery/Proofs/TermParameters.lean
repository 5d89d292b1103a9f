import TagQuery.Proofs.Reading

/-!
What the parameters of a compiled query come from. They begin with those that its terms give, in the
order of the terms, and those of the exclusions follow.
-/

namespace TagQuery

open Text

/-- A tag that is known gives its id. -/
def TagTerm.Gives (services : Services) (t : TagTerm) (params : List Param) : Prop :=
  ∃ id?, (services.resolve (lowercase t.word.value)).result = .ok id? ∧
    params = id?.toList.map .id

/-- A search field gives its value: as a number, in small letters or as it is written, and once for
each column that it is looked for in. -/
def FieldTerm.Gives (t : FieldTerm) (params : List Param) : Prop :=
  let value := t.value.value
  match t.name.value.toLower with
  | "user" | "parent" | "child" | "pool" => ∃ id, Denotes value id ∧ params = [.id id]
  | "rating" | "status" | "type" => params = [.text value.toLower]
  | "md5" | "extension" | "title" | "description" | "context" => params = [.text value]
  | "contains" => params = [.text value, .text value, .text value]
  | "sort" => params = []
  | _ => False

def Term.Gives (services : Services) : Term → List Param → Prop
  | .field t, params => t.Gives params
  | t, params => ∃ parts, List.Forall₂ (TagTerm.Gives services) t.tags parts ∧ params = parts.flatten

/-- A piece has the same parameters wherever it stands, and these are given. No piece has none. -/
def Piece.Gives (piece? : Option (Nat → Piece)) (params : List Param) : Prop :=
  ∀ base, piece?.elim [] (fun piece => (piece base).params) = params

theorem Piece.sequence_params {α : Type} {piece? : α → Option (Nat → Piece)}
    {params : α → List Param} (h : ∀ x, Gives (piece? x) (params x)) (xs : List α) (base : Nat) :
    (sequence base (xs.filterMap piece?)).2 = xs.flatMap params := by
  induction xs generalizing base with
  | nil => rfl
  | cons x xs ih =>
      rw [List.flatMap_cons, ← h x base]
      cases hpiece : piece? x with
      | none =>
          rw [List.filterMap_cons_none hpiece]
          exact ih base
      | some piece =>
          rw [List.filterMap_cons_some hpiece]
          exact congrArg ((piece base).params ++ ·) (ih _)

/-- The parameters of a disjunction are those of its parts. -/
theorem Piece.gives_any {α : Type} {piece : α → Nat → Piece} {params : α → List Param}
    (h : ∀ x, Gives (some (piece x)) (params x)) (xs : List α) :
    Gives (some (any (xs.map piece))) (xs.flatMap params) := by
  intro base
  rw [← List.filterMap_eq_map]
  exact sequence_params h xs base

/-- A tag that is known gives its id. -/
def TagTest.params (table : TagTable) (test : TagTest) : List Param :=
  (table.id? test.name).toList.map .id

theorem TagTest.gives_params (table : TagTable) (test : TagTest) :
    Piece.Gives (some (test.piece table)) (test.params table) := by
  intro base
  show (piece table test base).params = _
  unfold piece params
  cases table.id? test.name <;> cases test.negated <;> rfl

namespace Clause

/-- The parameters of a clause: ids of tags, an id or a keyword, or a text once for each column that
it is looked for in. -/
def params (table : TagTable) : Clause → List Param
  | .tag test => test.params table
  | .alternatives tests => tests.flatMap (TagTest.params table)
  | .user _ id | .childOf id | .parentOf id | .inPool id => [.id id]
  | .rating value => [.text value.keyword]
  | .status value => [.text value.keyword]
  | .fileType value => [.text value.keyword]
  | .text _ _ value => [.text value]
  | .contains columns value => columns.map fun _ => .text value
  | .sort _ => []

theorem gives_params (legacyLessThan : Bool) (table : TagTable) (clause : Clause) :
    Piece.Gives (clause.piece? legacyLessThan table) (clause.params table) := by
  cases clause with
  | tag test => exact test.gives_params table
  | alternatives tests => exact Piece.gives_any (TagTest.gives_params table) tests
  | contains columns value =>
      have hsingle (column : Column) :
          Piece.Gives (some (.single (.contains column) (.text value))) [.text value] :=
        fun _ => rfl
      have hany := Piece.gives_any hsingle columns
      rwa [← List.map_eq_flatMap] at hany
  | _ => exact fun _ => rfl

end Clause

/-- The parameters of a compiled query begin with those of its clauses. -/
theorem Draft.params_prefix_finish (d : Draft) (config : Config)
    (visibility? : Option Visibility) :
    d.clauses.flatMap (Clause.params d.table) <+: (d.finish config visibility?).params := by
  have hparams := Piece.sequence_params (Clause.gives_params config.legacyLessThan d.table)
    d.clauses 0
  rw [← hparams]
  exact List.prefix_append _ _

theorem FieldTerm.gives_of_clause {t : FieldTerm} {clause : Clause} (h : t.clause = .ok clause)
    (table : TagTable) : t.Gives (clause.params table) := by
  obtain ⟨field, hfield, hname⟩ := exists_ofName?_of_clause h
  cases field <;> simp only [FieldTerm.clause, hfield, map_eq_ok_iff, Except.ok.injEq] at h <;>
    simp only [Gives, ← hname, Field.keyword]
  case user | parent | child | pool =>
    obtain ⟨id, hid, rfl⟩ := h
    exact ⟨id, id_eq_ok_iff.mp hid, rfl⟩
  case rating | status | type =>
    obtain ⟨value, hvalue, rfl⟩ := h
    exact congrArg (fun text => [Param.text text]) (word_eq_toLower hvalue)
  case sort =>
    obtain ⟨order, -, rfl⟩ := h
    rfl
  case md5 | extension | title | description | context | contains =>
    subst h
    rfl

theorem TagTerm.gives_params {services : Services} {table : TagTable} {t : TagTerm}
    (htable : (services.resolve t.test.name).result = .ok (table.id? t.test.name)) :
    t.Gives services (t.test.params table) :=
  ⟨table.id? t.test.name, htable, rfl⟩

theorem Term.gives_of_clause {services : Services} {table : TagTable} {t : Term} {clause : Clause}
    (htags : ∀ tag ∈ t.tags, (services.resolve tag.test.name).result = .ok (table.id? tag.test.name))
    (h : t.clause = .ok clause) : t.Gives services (clause.params table) := by
  have hgives : List.Forall₂ (TagTerm.Gives services) t.tags
      (t.tags.map fun tag => tag.test.params table) :=
    List.forall₂_map_right_iff.mpr
      (List.forall₂_same.mpr fun tag htag => TagTerm.gives_params (htags tag htag))
  cases t with
  | tag tag =>
      cases h
      exact ⟨_, hgives, (List.append_nil _).symm⟩
  | alternatives opening first second others =>
      cases h
      refine ⟨_, hgives, ?_⟩
      rw [Clause.params, List.flatMap_map, List.flatMap_def]
      rfl
  | field f => exact f.gives_of_clause h table

/-- The parameters of a compiled query begin with those that its terms give. -/
theorem exists_given_params {services : Services} {config : Config} {viewer : Viewer} {q : Query}
    {c : Compiled} (h : (compile services config viewer q).outcome = .ok c) :
    ∃ parts, List.Forall₂ (Term.Gives services) q.terms parts ∧ parts.flatten <+: c.params := by
  obtain ⟨d, visibility?, hd, rfl, -⟩ := compile_eq_ok h
  refine ⟨d.clauses.map (Clause.params d.table), ?_, d.params_prefix_finish config visibility?⟩
  rw [List.forall₂_map_right_iff]
  have hread : List.Forall₂ (fun t clause => t ∈ q.terms ∧ t.clause = .ok clause) q.terms d.clauses :=
    (List.forall₂_and_left _ _).mpr ⟨fun _ ht => ht, hd.clauses⟩
  refine hread.imp fun t clause ⟨ht, hclause⟩ => ?_
  refine Term.gives_of_clause (fun tag htag => ?_) hclause
  exact hd.table _ (Query.mem_tagNames_iff.mpr ⟨t, ht, tag, htag, rfl⟩)

end TagQuery
