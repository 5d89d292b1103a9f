import TagQuery.Proofs.Lowering
import TagQuery.Proofs.Lookups

/-!
The terms of a query as clauses. A clause says of a post what its term asks for, if the operator of a
field is one of the language and the table holds what the tag service answers.
-/

namespace TagQuery

namespace Text

theorem ofDigits_cons_reverse (c : Char) (digits : List Char) :
    Nat.ofDigits 10 ((c :: digits).reverse.map digitValue) =
      Nat.ofDigits 10 (digits.reverse.map digitValue) + 10 ^ digits.length * digitValue c := by
  rw [List.reverse_cons, List.map_append, Nat.ofDigits_append, List.length_map, List.length_reverse]
  simp only [List.map_cons, List.map_nil, Nat.ofDigits_singleton]

/-- Digits are read as what they make up after the number before them, if that is below 2^64. -/
theorem readDigits_eq_ok_iff {value : Nat} {digits : List Char} {id : UInt64}
    (hvalue : value < UInt64.size) :
    readDigits value digits = .ok id ↔
      (∀ c ∈ digits, c.isDigit) ∧
        id.toNat = 10 ^ digits.length * value + Nat.ofDigits 10 (digits.reverse.map digitValue) := by
  induction digits generalizing value with
  | nil =>
      have hid : UInt64.ofNat value = id ↔ id.toNat = value := by
        rw [← UInt64.toNat_inj, UInt64.toNat_ofNat_of_lt' hvalue, eq_comm]
      simpa [readDigits] using hid
  | cons c digits ih =>
      have hvalues : 10 ^ (c :: digits).length * value +
          Nat.ofDigits 10 ((c :: digits).reverse.map digitValue) =
          10 ^ digits.length * (10 * value + digitValue c) +
            Nat.ofDigits 10 (digits.reverse.map digitValue) := by
        calc 10 ^ (c :: digits).length * value +
              Nat.ofDigits 10 ((c :: digits).reverse.map digitValue)
            = 10 ^ (digits.length + 1) * value +
                (Nat.ofDigits 10 (digits.reverse.map digitValue) +
                  10 ^ digits.length * digitValue c) := by
              rw [ofDigits_cons_reverse, List.length_cons]
          _ = 10 ^ digits.length * (10 * value + digitValue c) +
                Nat.ofDigits 10 (digits.reverse.map digitValue) := by
              ring
      rw [hvalues, List.forall_mem_cons, readDigits]
      by_cases hdigit : c.isDigit
      · rw [if_pos hdigit]
        dsimp only
        by_cases hnext : 10 * value + digitValue c < UInt64.size
        · rw [if_pos hnext, ih hnext]
          simp only [hdigit, true_and]
        · rw [if_neg hnext]
          refine iff_of_false nofun ?_
          rintro ⟨_, hid⟩
          have hpow : 10 * value + digitValue c ≤ 10 ^ digits.length * (10 * value + digitValue c) :=
            Nat.le_mul_of_pos_left _ (Nat.pow_pos (by decide))
          have hlt : id.toNat < UInt64.size := id.toNat_lt
          omega
      · rw [if_neg hdigit]
        exact iff_of_false nofun fun h => hdigit h.1.1

theorem readUnsigned_eq_ok_iff {digits : List Char} {id : UInt64} :
    readUnsigned digits = .ok id ↔
      digits ≠ [] ∧ (∀ c ∈ digits, c.isDigit) ∧
        id.toNat = Nat.ofDigits 10 (digits.reverse.map digitValue) := by
  cases digits with
  | nil => exact ⟨nofun, fun h => absurd rfl h.1⟩
  | cons c digits =>
      rw [readUnsigned, readDigits_eq_ok_iff (by decide), Nat.mul_zero, Nat.zero_add]
      · exact ⟨fun h => ⟨nofun, h⟩, fun h => h.2⟩
      · nofun

end Text

theorem Denotes.unique {text : String} {id id' : Id} (h : Denotes text id) (h' : Denotes text id') :
    id = id' :=
  UInt64.toNat_inj.mp (h.2.2.trans h'.2.2.symm)

theorem keyword_of_findKeyword {α : Type} {values : List α} {keyword : α → String} {text : String}
    {value : α} (h : findKeyword values keyword text = some value) :
    keyword value = text.toLower := by
  simpa using List.find?_some h

/-- The operator of a field is one of those that the language has. -/
def FieldTerm.OperatorKnown (t : FieldTerm) : Prop :=
  t.operator.value ∈ ["=", ">", "<", "!"]

theorem writtenComparator?_eq {legacyLessThan : Bool} {text : String}
    (h : text ∈ ["=", ">", "<", "!"]) :
    writtenComparator? legacyLessThan text =
      some ((Operator.ofText text).comparator legacyLessThan) := by
  simp only [List.mem_cons, List.not_mem_nil, or_false] at h
  rcases h with rfl | rfl | rfl | rfl <;> rfl

namespace FieldTerm

variable {post : Post} {legacyLessThan : Bool} {t : FieldTerm}

theorem id_eq_ok_iff {id : Id} : t.id = .ok id ↔ Denotes t.value.value id := by
  unfold FieldTerm.id Denotes
  rw [← Text.readUnsigned_eq_ok_iff]
  cases Text.readUnsigned t.value.value.toList with
  | ok found => simp only [Except.ok.injEq]
  | error reason => simp only [reduceCtorEq]

/-- A value that is read as a keyword is that keyword in small letters. -/
theorem word_eq_toLower {α : Type} {values : List α} {word : α → String} {value : α}
    (h : t.keyword (findKeyword values word) = .ok value) : word value = t.value.value.toLower := by
  unfold FieldTerm.keyword at h
  split at h
  next value' hfind =>
    cases h
    exact keyword_of_findKeyword hfind
  next => cases h

theorem relates_iff {id : Id} (h : t.id = .ok id) (relation : Id → Prop) :
    t.Relates relation ↔ relation id := by
  have hid := id_eq_ok_iff.mp h
  constructor
  · rintro ⟨id', hid', hrelation⟩
    exact hid.unique hid' ▸ hrelation
  · exact fun hrelation => ⟨id, hid, hrelation⟩

theorem compares_iff (h : t.OperatorKnown) (column : Column) (value : Param) :
    t.Compares legacyLessThan post column value ↔
      post.compares column ((Operator.ofText t.operator.value).comparator legacyLessThan) value := by
  rw [Compares, writtenComparator?_eq h]
  simp only [Option.some.injEq, exists_eq_left']

theorem equals_iff {α : Type} {values : List α} {word : α → String} {value : α}
    (h : t.keyword (findKeyword values word) = .ok value) (column : Column) :
    t.Equals post column ↔ post.compares column .equal (.text (word value)) := by
  rw [Equals, word_eq_toLower h]

theorem exists_ofName?_of_clause {clause : Clause} (h : t.clause = .ok clause) :
    ∃ field, Field.ofName? t.name.value = some field ∧ field.keyword = t.name.value.toLower := by
  cases hfield : Field.ofName? t.name.value with
  | none =>
      rw [FieldTerm.clause, hfield] at h
      cases h
  | some field => exact ⟨field, rfl, keyword_of_findKeyword hfield⟩

/-- A search field asks for what its clause says. -/
theorem holds_iff_of_clause {clause : Clause} (hoperator : t.OperatorKnown)
    (h : t.clause = .ok clause) (table : TagTable) :
    t.Holds legacyLessThan post ↔ clause.Holds legacyLessThan table post := by
  obtain ⟨field, hfield, hname⟩ := exists_ofName?_of_clause h
  cases field <;> simp only [FieldTerm.clause, hfield, map_eq_ok_iff, Except.ok.injEq] at h <;>
    simp only [Holds, ← hname, Field.keyword]
  case user =>
    obtain ⟨id, hid, rfl⟩ := h
    exact (relates_iff hid _).trans (compares_iff hoperator _ _)
  case parent | child | pool =>
    obtain ⟨id, hid, rfl⟩ := h
    exact relates_iff hid _
  case rating | status | type =>
    obtain ⟨value, hvalue, rfl⟩ := h
    exact equals_iff hvalue _
  case md5 | extension =>
    subst h
    exact compares_iff hoperator _ _
  case title | description | context | contains =>
    subst h
    simp [Clause.Holds]
  case sort =>
    obtain ⟨order, _, rfl⟩ := h
    exact Iff.rfl

end FieldTerm

variable {services : Services} {post : Post} {table : TagTable} {legacyLessThan : Bool}

/-- A tag asks for what its test says, if the table holds what is answered for its name. -/
theorem TagTerm.holds_iff (t : TagTerm)
    (htable : (services.resolve t.test.name).result = .ok (table.id? t.test.name)) :
    t.Holds services post ↔ t.test.Holds table post := by
  have hknows (id : Id) : services.Knows (Text.lowercase t.word.value) id ↔
      table.id? t.test.name = some id := by
    show (services.resolve t.test.name).result = .ok (some id) ↔ _
    rw [htable, Except.ok.injEq]
  simp only [TagTerm.Holds, TagTest.Holds, hknows]
  rfl

theorem Term.holds_iff_of_clause {t : Term} {clause : Clause}
    (htags : ∀ tag ∈ t.tags, (services.resolve tag.test.name).result = .ok (table.id? tag.test.name))
    (hoperator : ∀ f, t = .field f → f.OperatorKnown) (h : t.clause = .ok clause) :
    t.Holds services legacyLessThan post ↔ clause.Holds legacyLessThan table post := by
  cases t with
  | tag tag =>
      cases h
      exact tag.holds_iff (htags tag (List.mem_singleton_self tag))
  | alternatives opening first second others =>
      cases h
      constructor
      · rintro ⟨tag, htag, hholds⟩
        exact ⟨tag.test, List.mem_map_of_mem htag, (tag.holds_iff (htags tag htag)).mp hholds⟩
      · rintro ⟨_, htest, hholds⟩
        obtain ⟨tag, htag, rfl⟩ := List.mem_map.mp htest
        exact ⟨tag, htag, (tag.holds_iff (htags tag htag)).mpr hholds⟩
  | field f => exact f.holds_iff_of_clause (hoperator f rfl) h table

theorem FieldTerm.constrains_iff {t : FieldTerm} {clause : Clause} (h : t.clause = .ok clause) :
    (clause.isRating = true ↔ t.name.value.toLower = "rating") ∧
      (clause.isStatus = true ↔ t.name.value.toLower = "status") := by
  obtain ⟨field, hfield, hname⟩ := exists_ofName?_of_clause h
  rw [← hname]
  cases field <;> simp only [FieldTerm.clause, hfield, map_eq_ok_iff, Except.ok.injEq] at h
  case md5 | extension | title | description | context | contains =>
    subst h
    simp [Clause.isRating, Clause.isStatus, Field.keyword]
  all_goals
    obtain ⟨value, _, rfl⟩ := h
    simp [Clause.isRating, Clause.isStatus, Field.keyword]

section

variable {q : Query} {d : Draft}

/-- A test of clauses that goes by the name of a field finds the queries with that field. -/
theorem Query.DraftedAs.any_clauses_iff (hd : q.DraftedAs services d) {test : Clause → Bool}
    {name : String} (htest : ∀ t clause, FieldTerm.clause t = .ok clause →
      (test clause = true ↔ t.name.value.toLower = name))
    (htag : ∀ test', test (.tag test') = false)
    (halternatives : ∀ tests, test (.alternatives tests) = false) :
    d.clauses.any test = true ↔ q.HasField name := by
  rw [List.any_eq_true]
  constructor
  · rintro ⟨clause, hclause, hholds⟩
    obtain ⟨t, ht, hread⟩ := exists_of_mem_right hd.clauses hclause
    cases t with
    | tag tag =>
        cases hread
        cases (htag _).symm.trans hholds
    | alternatives opening first second others =>
        cases hread
        cases (halternatives _).symm.trans hholds
    | field f => exact ⟨f, ht, (htest f clause hread).mp hholds⟩
  · rintro ⟨f, hf, hname⟩
    obtain ⟨clause, hclause, hread⟩ := exists_of_mem_left hd.clauses hf
    exact ⟨clause, hclause, (htest f clause hread).mpr hname⟩

theorem Query.DraftedAs.constrainsRating_iff (hd : q.DraftedAs services d) :
    d.constrainsRating = true ↔ q.HasField "rating" :=
  hd.any_clauses_iff (fun _ _ h => (FieldTerm.constrains_iff h).1) (fun _ => rfl) (fun _ => rfl)

theorem Query.DraftedAs.constrainsStatus_iff (hd : q.DraftedAs services d) :
    d.constrainsStatus = true ↔ q.HasField "status" :=
  hd.any_clauses_iff (fun _ _ h => (FieldTerm.constrains_iff h).2) (fun _ => rfl) (fun _ => rfl)

end

end TagQuery
