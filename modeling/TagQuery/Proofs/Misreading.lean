import TagQuery.Proofs.LastingErrors
import TagQuery.Proofs.TermParameters
import TagQuery.Proofs.Values

/-!
Which terms cannot be read, and why. A search field is bad if it has none of the names, or a value
that its name does not admit. Where the lookups of a query succeed, the query fails to compile
exactly if one of its fields is bad, for the reason of the first of these.
-/

namespace TagQuery

open Text

/-- The names of the search fields. -/
def fieldNames : List String :=
  ["user", "rating", "status", "md5", "extension", "parent", "child", "type", "title",
    "description", "context", "contains", "pool", "sort"]

/-- The fields whose values are numbers. -/
def numericFields : List String :=
  ["user", "parent", "child", "pool"]

/-- The fields whose values are keywords, with these. -/
def fieldKeywords : List (String × List String) :=
  [("rating", ["general", "unsafe", "explicit"]), ("status", ["ok", "deleted"]),
    ("type", ["image", "video"])]

/-- A search field cannot be read for a reason. Names and keywords are compared in letters of either
case, and the reason holds them as they are written. -/
@[mk_iff]
inductive FieldTerm.IsBad (t : FieldTerm) : TermError → Prop
  | invalidField (hname : t.name.value.toLower ∉ fieldNames) :
      IsBad t (.invalidField t.name.value)
  | notNumeric (hname : t.name.value.toLower ∈ numericFields) (hvalue : ¬IsDecimal t.value.value) :
      IsBad t (.notNumeric t.name.value t.value.value)
  | invalidValue {keywords : List String}
      (hname : (t.name.value.toLower, keywords) ∈ fieldKeywords)
      (hvalue : t.value.value.toLower ∉ keywords) :
      IsBad t (.invalidValue t.name.value t.value.value)
  | invalidSortKey (hname : t.name.value.toLower = "sort")
      (hvalue : ¬∃ order, SortsBy t.value.value order) :
      IsBad t (.invalidSortKey t.value.value)

theorem map_eq_error_iff {α β ε : Type} {x : Except ε α} {f : α → β} {e : ε} :
    x.map f = .error e ↔ x = .error e := by
  cases x with
  | ok value => simp [Except.map]
  | error e' => simp [Except.map]

namespace FieldTerm

variable {t : FieldTerm} {e : TermError}

theorem id_eq_error_iff :
    t.id = .error e ↔ ¬IsDecimal t.value.value ∧ e = .notNumeric t.name.value t.value.value := by
  rw [← exists_denotes_iff]
  simp only [← id_eq_ok_iff]
  unfold FieldTerm.id
  cases readUnsigned t.value.value.toList with
  | ok found => simp
  | error reason => simp [eq_comm]

theorem keyword_eq_error_iff {α : Type} {ofKeyword? : String → Option α} :
    t.keyword ofKeyword? = .error e ↔
      ofKeyword? t.value.value = none ∧ e = .invalidValue t.name.value t.value.value := by
  unfold FieldTerm.keyword
  cases ofKeyword? t.value.value with
  | some value => simp
  | none => simp [eq_comm]

theorem order_eq_ok_iff {order : Order} : t.order = .ok order ↔ SortsBy t.value.value order := by
  rw [← Order.ofText?_eq_some_iff]
  unfold FieldTerm.order
  cases Order.ofText? t.value.value with
  | some found => simp
  | none => simp

theorem order_eq_error_iff : t.order = .error e ↔
    (¬∃ order, SortsBy t.value.value order) ∧ e = .invalidSortKey t.value.value := by
  simp only [← Order.ofText?_eq_some_iff]
  unfold FieldTerm.order
  cases Order.ofText? t.value.value with
  | some found => simp
  | none => simp [eq_comm]

/-- A field cannot be read exactly if it is bad, for the reason for which it is. -/
theorem clause_eq_error_iff : t.clause = .error e ↔ t.IsBad e := by
  rw [isBad_iff]
  unfold clause
  cases hfield : Field.ofName? t.name.value with
  | none =>
      have hname : t.name.value.toLower ∉ fieldNames := findKeyword_eq_none_iff.mp hfield
      simp only [fieldNames, List.mem_cons, List.not_mem_nil, or_false, not_or] at hname
      simpa [fieldNames, numericFields, fieldKeywords, hname] using eq_comm
  | some field =>
      have hname := Field.ofName?_eq_some_iff.mp hfield
      rw [← hname]
      cases field with
      | user | parent | child | pool =>
          simp [Field.keyword, fieldNames, numericFields, fieldKeywords, map_eq_error_iff,
            id_eq_error_iff]
      | rating | status | type =>
          simp [Field.keyword, fieldNames, numericFields, fieldKeywords, map_eq_error_iff,
            keyword_eq_error_iff, Rating.ofKeyword?_eq_none_iff, PostStatus.ofKeyword?_eq_none_iff,
            FileType.ofKeyword?_eq_none_iff]
      | sort =>
          simp [Field.keyword, fieldNames, numericFields, fieldKeywords, map_eq_error_iff,
            order_eq_error_iff]
      | md5 | extension | title | description | context | contains =>
          simp [Field.keyword, fieldNames, numericFields, fieldKeywords]

theorem exists_clause_iff : (∃ clause, t.clause = .ok clause) ↔ ¬∃ e, t.IsBad e := by
  simp only [← clause_eq_error_iff]
  cases t.clause with
  | ok clause => simp
  | error e => simp

end FieldTerm

def Term.field? : Term → Option FieldTerm
  | .field t => some t
  | _ => none

namespace Query

/-- The search fields of a query, in its order. -/
def fields (q : Query) : List FieldTerm :=
  q.terms.filterMap Term.field?

/-- The first of the fields of a query that are bad is bad for a reason. -/
def FirstBad (q : Query) (e : TermError) : Prop :=
  ∃ before t after, q.fields = before ++ t :: after ∧ (∀ t' ∈ before, ¬∃ e', t'.IsBad e') ∧
    t.IsBad e

theorem mapM_cons_eq_error_iff {α β ε : Type} {f : α → Except ε β} {x : α} {y : β} {xs : List α}
    {e : ε} (h : f x = .ok y) : (x :: xs).mapM f = .error e ↔ xs.mapM f = .error e := by
  rw [List.mapM_cons, h]
  exact map_eq_error_iff (f := (y :: ·))

/-- Only fields can be misread. -/
theorem mapM_clause_eq_error_iff {terms : List Term} {e : TermError} :
    terms.mapM Term.clause = .error e ↔
      (terms.filterMap Term.field?).mapM FieldTerm.clause = .error e := by
  induction terms with
  | nil => exact Iff.rfl
  | cons t terms ih =>
      cases t with
      | tag _ | alternatives _ _ _ _ =>
          rw [mapM_cons_eq_error_iff (f := Term.clause) rfl, List.filterMap_cons_none rfl]
          exact ih
      | field f =>
          rw [List.filterMap_cons_some (show Term.field? (.field f) = some f from rfl)]
          cases hclause : f.clause with
          | ok clause =>
              have hterm : Term.clause (.field f) = .ok clause := hclause
              rw [mapM_cons_eq_error_iff hterm, mapM_cons_eq_error_iff hclause]
              exact ih
          | error e' =>
              rw [List.mapM_cons, List.mapM_cons, Term.clause, hclause]
              exact Iff.rfl

/-- The first term that cannot be read is the first field that is bad. -/
theorem clauses_eq_error_iff {q : Query} {e : TermError} : q.clauses = .error e ↔ q.FirstBad e := by
  rw [clauses, mapM_clause_eq_error_iff, mapM_eq_error_iff]
  simp only [FieldTerm.exists_clause_iff, FieldTerm.clause_eq_error_iff]
  exact Iff.rfl

theorem mem_fields_iff {q : Query} {t : FieldTerm} : t ∈ q.fields ↔ Term.field t ∈ q.terms := by
  rw [fields, List.mem_filterMap]
  constructor
  · rintro ⟨_ | _ | f, hterm, hfield⟩
    · cases hfield
    · cases hfield
    · cases hfield
      exact hterm
  · exact fun hterm => ⟨_, hterm, rfl⟩

theorem exists_firstBad_iff {q : Query} :
    (∃ e, q.FirstBad e) ↔ ∃ t ∈ q.fields, ∃ e, t.IsBad e := by
  constructor
  · rintro ⟨e, before, t, after, hfields, -, hbad⟩
    exact ⟨t, hfields ▸ List.mem_append_right _ List.mem_cons_self, e, hbad⟩
  · rintro ⟨t, ht, e, hbad⟩
    simp only [← clauses_eq_error_iff]
    cases hclauses : q.clauses with
    | error e' => exact ⟨e', rfl⟩
    | ok clauses =>
        obtain ⟨clause, -, hclause⟩ :=
          exists_of_mem_left (mapM_eq_ok_iff.mp hclauses) (mem_fields_iff.mp ht)
        exact absurd ⟨e, hbad⟩ (FieldTerm.exists_clause_iff.mp ⟨clause, hclause⟩)

end Query

namespace FieldTerm

def IsSort (t : FieldTerm) : Prop :=
  t.name.value.toLower = "sort"

instance (t : FieldTerm) : Decidable t.IsSort :=
  inferInstanceAs (Decidable (_ = "sort"))

end FieldTerm

theorem FieldTerm.sortsBy_order? {t : FieldTerm} {clause : Clause} (h : t.clause = .ok clause) :
    Option.Rel (fun (t : FieldTerm) order => SortsBy t.value.value order)
      (Option.filter (fun t => t.IsSort) (some t)) clause.order? := by
  obtain ⟨field, hfield, hname⟩ := exists_ofName?_of_clause h
  have hsort : t.IsSort ↔ field.keyword = "sort" := by rw [hname, IsSort]
  simp only [Option.filter, hsort]
  cases field <;> simp only [FieldTerm.clause, hfield, map_eq_ok_iff, Except.ok.injEq] at h
  case sort =>
    obtain ⟨order, horder, rfl⟩ := h
    exact .some (order_eq_ok_iff.mp horder)
  case user | parent | child | pool | rating | status | type =>
    obtain ⟨value, -, rfl⟩ := h
    exact .none
  case md5 | extension | title | description | context | contains =>
    subst h
    exact .none

/-- The order is that of the last sort key, or else the one that is configured. -/
theorem Query.DraftedAs.exists_orders {services : Services} {q : Query} {d : Draft}
    (hd : q.DraftedAs services d) (config : Config) (visibility? : Option Visibility) :
    ∃ orders, List.Forall₂ (fun (t : FieldTerm) order => SortsBy t.value.value order)
        (q.fields.filter fun t => t.IsSort) orders ∧
      (d.finish config visibility?).order = orders.getLast?.getD config.defaultOrder := by
  refine ⟨d.clauses.filterMap Clause.order?, ?_, rfl⟩
  rw [fields, List.filter_filterMap]
  refine List.rel_filterMap (fun t clause hread => ?_) hd.clauses
  cases t with
  | tag _ | alternatives _ _ _ _ =>
      cases hread
      exact .none
  | field f => exact f.sortsBy_order? hread

/-! ### Compilations whose lookups succeed -/

/-- The lookups of a query succeed in time. The preferences are looked up unless a field names a
rating. -/
structure Query.FindsAll (q : Query) (services : Services) (config : Config) (viewer : Viewer) :
    Prop where
  tags : ¬q.LosesTags services config
  preferences : ¬q.HasField "rating" →
    ∃ visibility, (services.visibility viewer).within config.lookupTimeout = .ok visibility

section

variable {services : Services} {config : Config} {viewer : Viewer} {q : Query}
  (h : q.FindsAll services config viewer)

include h

theorem Query.FindsAll.outcome_ne_lookup (e : LookupError) :
    (compile services config viewer q).outcome ≠ .error (.lookup e) := by
  cases htags : (Answer.together (q.tagAnswers services)).within config.lookupTimeout with
  | error lost => exact absurd (Query.losesTags_iff.mpr ⟨lost, htags⟩) h.tags
  | ok ids =>
      rw [compile_eq_compileJoining]
      cases hdraft : q.draft (.ofList ids) with
      | error e' =>
          rw [compileJoining_of_draft_error htags hdraft]
          simp
      | ok d =>
          rw [compileJoining_of_draft htags hdraft]
          have hcollect := Answer.together_eq_ok_iff.mp (Answer.result_of_within_eq_ok htags)
          have hrating := (Query.draftedAs_of_draft hcollect hdraft).constrainsRating_iff
          dsimp only
          unfold Draft.complete Draft.lookUpPreferences
          split
          · simp
          next hunrated =>
            obtain ⟨visibility, hfound⟩ := h.preferences (mt hrating.mpr hunrated)
            rw [hfound]
            simp

/-- Where the lookups succeed, a query fails to compile exactly if one of its fields is bad, for the
reason of the first of these. Otherwise the parameters begin with what its terms give, where numbers
give ids, and its last sort key gives the order. -/
theorem compile_outcome_of_findsAll :
    (∀ e, (compile services config viewer q).outcome = .error e ↔
      ∃ reason, q.FirstBad reason ∧ e = .term reason) ∧
    ((∃ e, (compile services config viewer q).outcome = .error e) ↔
      ∃ t ∈ q.fields, ∃ reason, t.IsBad reason) ∧
    ∀ c, (compile services config viewer q).outcome = .ok c →
      (∃ parts, List.Forall₂ (Term.Gives services) q.terms parts ∧ parts.flatten <+: c.params) ∧
      ∃ orders, List.Forall₂ (fun (t : FieldTerm) order => SortsBy t.value.value order)
          (q.fields.filter fun t => t.IsSort) orders ∧
        c.order = orders.getLast?.getD config.defaultOrder := by
  have hfirst (e : CompileError) : (compile services config viewer q).outcome = .error e ↔
      ∃ reason, q.FirstBad reason ∧ e = .term reason := by
    cases e with
    | lookup e => simpa using h.outcome_ne_lookup e
    | term reason =>
        rw [compile_outcome_eq_term_iff, Query.clauses_eq_error_iff]
        simp [h.tags]
  refine ⟨hfirst, ?_, ?_⟩
  · rw [← Query.exists_firstBad_iff]
    constructor
    · rintro ⟨e, he⟩
      obtain ⟨reason, hreason, -⟩ := (hfirst e).mp he
      exact ⟨reason, hreason⟩
    · exact fun ⟨reason, hreason⟩ => ⟨_, (hfirst _).mpr ⟨reason, hreason, rfl⟩⟩
  · intro c hc
    refine ⟨exists_given_params hc, ?_⟩
    obtain ⟨d, visibility?, hd, rfl, -⟩ := compile_eq_ok hc
    exact hd.exists_orders config visibility?

end

/-- A number that is too large is reported, and not the status behind it, which has the sign of a
kelvin. A number with leading zeros is an id, and the last of two sort keys counts. -/
theorem compile_outcome_of_findsAll_of_numbers :
    let bad := "x user:18446744073709551616 status:o\u212A"
    let good := "Parent:00018446744073709551615 sort:ID_Asc SORT:Width"
    (∃ q, Query.parse bad = .ok q ∧ q.FindsAll Store.empty.services {} .anonymous ∧
      (compile Store.empty.services {} .anonymous q).outcome =
        .error (.term (.notNumeric "user" "18446744073709551616"))) ∧
    ∃ q c, Query.parse good = .ok q ∧ q.FindsAll Store.empty.services {} .anonymous ∧
      (compile Store.empty.services {} .anonymous q).outcome = .ok c ∧
      [.id 18446744073709551615] <+: c.params ∧ c.order = ⟨.width, .descending⟩ := by
  intro bad good
  have hfinds (q : Query) : q.FindsAll Store.empty.services {} .anonymous := by
    refine ⟨?_, fun _ => ⟨_, rfl⟩⟩
    rintro (⟨_, _, _, hfails⟩ | ⟨_, hlimit, -⟩)
    · cases hfails
    · cases hlimit
  let colonAt (position : Nat) : Token := ⟨.colon, ":", position⟩
  refine ⟨?_, ?_⟩
  · let user : FieldTerm :=
      ⟨⟨.word, "user", 2⟩, colonAt 6, impliedOperator (colonAt 6),
        ⟨.word, "18446744073709551616", 7⟩⟩
    let status : FieldTerm :=
      ⟨⟨.word, "status", 28⟩, colonAt 34, impliedOperator (colonAt 34), ⟨.word, "o\u212A", 35⟩⟩
    let q : Query := ⟨.tag ⟨false, ⟨.word, "x", 0⟩⟩, [.field user, .field status]⟩
    have hparse : Query.parse bad = .ok q := by decide +kernel
    have hvalue : ¬IsDecimal "18446744073709551616" := fun h => absurd h.lt (by decide +kernel)
    have hbad : user.IsBad (.notNumeric "user" "18446744073709551616") :=
      .notNumeric (by decide +kernel) hvalue
    have hfirst : q.FirstBad (.notNumeric "user" "18446744073709551616") :=
      ⟨[], user, [status], rfl, List.forall_mem_nil _, hbad⟩
    exact ⟨q, hparse, hfinds q,
      ((compile_outcome_of_findsAll (hfinds q)).1 _).mpr ⟨_, hfirst, rfl⟩⟩
  · let parent : FieldTerm :=
      ⟨⟨.word, "Parent", 0⟩, colonAt 6, impliedOperator (colonAt 6),
        ⟨.word, "00018446744073709551615", 7⟩⟩
    let first : FieldTerm :=
      ⟨⟨.word, "sort", 31⟩, colonAt 35, impliedOperator (colonAt 35), ⟨.word, "ID_Asc", 36⟩⟩
    let last : FieldTerm :=
      ⟨⟨.word, "SORT", 43⟩, colonAt 47, impliedOperator (colonAt 47), ⟨.word, "Width", 48⟩⟩
    let q : Query := ⟨.field parent, [.field first, .field last]⟩
    have hparse : Query.parse good = .ok q := by decide +kernel
    have hname : parent.name.value.toLower = "parent" := by decide +kernel
    have hsort : (q.fields.filter fun t => t.IsSort) = [first, last] := by decide +kernel
    have hid : parent.id = .ok 18446744073709551615 := by decide +kernel
    have horder : Order.ofText? last.value.value = some ⟨.width, .descending⟩ := by decide +kernel
    have hok : (compile Store.empty.services {} .anonymous q).outcome.isOk = true := by
      decide +kernel
    cases hc : (compile Store.empty.services {} .anonymous q).outcome with
    | error e =>
        rw [hc] at hok
        cases hok
    | ok c =>
        obtain ⟨⟨parts, hparts, hparams⟩, orders, horders, hlast⟩ :=
          (compile_outcome_of_findsAll (hfinds q)).2.2 c hc
        rw [hsort] at horders
        obtain _ | ⟨hgives, _⟩ := hparts
        obtain _ | ⟨-, _ | ⟨hsorts, ⟨⟩⟩⟩ := horders
        have hparent : parent.Gives _ := hgives
        simp only [FieldTerm.Gives, hname] at hparent
        obtain ⟨id, hdenotes, rfl⟩ := hparent
        rw [hdenotes.unique (FieldTerm.id_eq_ok_iff.mp hid), List.flatten_cons] at hparams
        rw [hsorts.unique (Order.ofText?_eq_some_iff.mp horder)] at hlast
        exact ⟨q, c, hparse, hfinds q, hc, (List.prefix_append _ _).trans hparams, hlast⟩

end TagQuery
