import TagQuery.Proofs.Correspondence
import TagQuery.Proofs.LastingErrors
import TagQuery.Proofs.Preservation
import TagQuery.Proofs.Recasing
import TagQuery.Proofs.TermParameters

/-!
The case of letters in queries. It makes no difference in tags, in the names of search fields and in
values that are keywords: what is in other letters there is parsed to a tree of the same shape, asks
for the same tags, and compiles to the same query or fails in the same way. All other values are
taken as they are written.
-/

namespace TagQuery

open Text Grammar

/-- The fields whose values are keywords or sort keys. -/
def keywordFields : List String :=
  ["rating", "status", "type", "sort"]

def FieldTerm.TakesKeyword (t : FieldTerm) : Prop :=
  t.name.value.toLower ∈ keywordFields

instance FieldTerm.decidableTakesKeyword (t : FieldTerm) : Decidable t.TakesKeyword :=
  inferInstanceAs (Decidable (_ ∈ keywordFields))

/-- The words of a term, of which a field has two. -/
def Term.words : Term → List Token
  | .field t => [t.name, t.value]
  | t => t.tags.map TagTerm.word

/-- The words of a term whose letters are read in either case. -/
def Term.caselessWords : Term → List Token
  | .field t => if t.TakesKeyword then [t.name, t.value] else [t.name]
  | t => t.tags.map TagTerm.word

namespace Query

def words (q : Query) : List Token :=
  q.terms.flatMap Term.words

def caselessWords (q : Query) : List Token :=
  q.terms.flatMap Term.caselessWords

/-- An offset lies within a word whose letters are read in either case. -/
def IgnoresCaseAt (q : Query) (offset : Nat) : Prop :=
  ∃ t ∈ q.caselessWords, t.position ≤ offset ∧ offset < t.stop

instance decidableIgnoresCaseAt (q : Query) : DecidablePred q.IgnoresCaseAt :=
  fun offset =>
    inferInstanceAs (Decidable (∃ t ∈ q.caselessWords, t.position ≤ offset ∧ offset < t.stop))

/-- A token, or a word in other letters whose letters are read in either case. -/
def SameButCase (q : Query) (t t' : Token) : Prop :=
  t' = t ∨ t ∈ q.caselessWords ∧ t'.lowered = t.lowered

end Query

/-- An error whose texts are in small letters. -/
def TermError.lowered : TermError → TermError
  | .invalidField name => .invalidField name.toLower
  | .invalidValue name value => .invalidValue name.toLower value.toLower
  | .notNumeric name value => .notNumeric name.toLower value.toLower
  | .invalidSortKey value => .invalidSortKey value.toLower

def CompileError.lowered : CompileError → CompileError
  | .term e => .term e.lowered
  | .lookup e => .lookup e

/-- A compilation. If a term cannot be read, the texts of the error are in small letters. -/
def Compilation.lowered (c : Compilation) : Compilation :=
  { c with outcome := c.outcome.mapError CompileError.lowered }

namespace Grammar

theorem TagDerivation.word_sublist (d : TagDerivation) : List.Sublist [d.term.word] d.leaves := by
  cases d with
  | word w => exact List.Sublist.refl _
  | negated dash w => exact List.sublist_cons_self _ _

theorem TermDerivation.words_sublist (d : TermDerivation) :
    List.Sublist d.term.words d.leaves := by
  cases d with
  | tag t => exact t.word_sublist
  | block opening first second others closing =>
      have hlater : List.Sublist ((second :: others).map fun next => next.2.term.word)
          ((second :: others).flatMap NextDerivation.leaves) := by
        rw [List.map_eq_flatMap]
        apply List.Sublist.flatMap_right
        intro next _
        exact next.2.word_sublist.trans (List.sublist_cons_self _ _)
      have hwords : (TermDerivation.block opening first second others closing).term.words =
          [first.term.word] ++ (second :: others).map fun next => next.2.term.word := by
        simp [term, Term.words, Term.tags]
      rw [hwords]
      apply List.Sublist.cons
      exact (first.word_sublist.append hlater).trans (List.sublist_append_left _ _)
  | field name colon operator? value =>
      exact .cons_cons _ (.cons _ (List.sublist_append_right _ _))

theorem QueryDerivation.words_sublist (d : QueryDerivation) :
    List.Sublist d.query.words d.leaves := by
  have hwords : d.query.words = d.terms.flatMap fun term => term.term.words :=
    List.flatMap_map (f := TermDerivation.term) (g := Term.words) (l := d.terms)
  rw [hwords]
  exact List.Sublist.flatMap_right _ fun term _ => term.words_sublist

end Grammar

/-- No token of a query stands in it twice. -/
theorem nodup_beforeEnd_tokenize (text : String) : (beforeEnd (tokenize text)).Nodup := by
  have hrules := isTokenization_tokenize text
  have hordered : (beforeEnd (tokenize text)).Pairwise fun a b => a.stop ≤ b.position :=
    hrules.ordered.sublist (List.takeWhile_sublist _)
  apply hordered.imp_of_mem
  rintro t _ ht - hstop rfl
  have hempty : t.value.utf8ByteSize = 0 := by
    unfold Token.stop at hstop
    omega
  exact hrules.nonempty t (mem_tokenize_of_mem_beforeEnd ht) (kind_ne_of_mem_beforeEnd ht)
    (String.utf8ByteSize_eq_zero_iff.mp hempty)

/-- Two tokens of a text that both cover an offset are one. -/
theorem eq_of_covers {text : String} {t t' : Token} {offset : Nat} (ht : t ∈ tokenize text)
    (ht' : t' ∈ tokenize text) (hcovers : t.position ≤ offset ∧ offset < t.stop)
    (hcovers' : t'.position ≤ offset ∧ offset < t'.stop) : t = t' := by
  by_contra hne
  let Apart (a b : Token) : Prop := a.stop ≤ b.position ∨ b.stop ≤ a.position
  have : Std.Symm Apart := ⟨fun _ _ => Or.symm⟩
  have hapart : (tokenize text).Pairwise Apart := (isTokenization_tokenize text).ordered.imp .inl
  rcases hapart.forall ht ht' hne with hbefore | hbehind <;> omega

section

variable {text text' : String} {q : Query} (h : Query.parse text = .ok q)

include h

theorem words_sublist_of_parse : List.Sublist q.words (beforeEnd (tokenize text)) := by
  obtain ⟨d, hleaves, rfl⟩ := Query.ofTokens_eq_ok.mp h
  rw [← hleaves]
  exact d.words_sublist

omit h in
theorem Term.caselessWords_subset (t : Term) : t.caselessWords ⊆ t.words := by
  cases t with
  | field f =>
      show (if f.TakesKeyword then [f.name, f.value] else [f.name]) ⊆ [f.name, f.value]
      split
      · exact fun _ hw => hw
      · exact List.cons_subset_cons _ (List.nil_subset _)
  | tag _ | alternatives _ _ _ _ => exact fun _ hw => hw

theorem mem_tokenize_of_mem_caselessWords {w : Token} (hw : w ∈ q.caselessWords) :
    w ∈ tokenize text := by
  obtain ⟨t, ht, hmem⟩ := List.mem_flatMap.mp hw
  have hword : w ∈ q.words := List.mem_flatMap.mpr ⟨t, ht, t.caselessWords_subset hmem⟩
  exact mem_tokenize_of_mem_beforeEnd ((words_sublist_of_parse h).subset hword)

/-- The letters of a value are read in either case only if its field takes keywords. -/
theorem takesKeyword_of_value_mem {f : FieldTerm} (hf : Term.field f ∈ q.terms)
    (hvalue : f.value ∈ q.caselessWords) : f.TakesKeyword := by
  have hnodup : q.words.Nodup := (nodup_beforeEnd_tokenize text).sublist (words_sublist_of_parse h)
  obtain ⟨hown, hothers⟩ := List.nodup_flatMap.mp hnodup
  obtain ⟨t, ht, hmem⟩ := List.mem_flatMap.mp hvalue
  have hsame : t = .field f := by
    by_contra hne
    have : Std.Symm (Function.onFun List.Disjoint Term.words) := ⟨fun _ _ => List.Disjoint.symm⟩
    have hdisjoint := hothers.forall ht hf hne
    exact hdisjoint (t.caselessWords_subset hmem) (by simp [Term.words])
  subst hsame
  by_contra hliteral
  have hname : f.value = f.name := by simpa [Term.caselessWords, hliteral] using hmem
  have hwords := hown _ hf
  simp [Term.words, hname] at hwords

end

theorem mapError_map {α β ε ε' : Type} (x : Except ε α) (f : α → β) (view : ε → ε') :
    (x.map f).mapError view = (x.mapError view).map f := by
  cases x <;> rfl

namespace FieldTerm

section

variable {t t' : FieldTerm} (hname : t'.name.value.toLower = t.name.value.toLower)

include hname

theorem id_lowered (hvalue : t'.value.value = t.value.value) :
    t'.id.mapError TermError.lowered = t.id.mapError TermError.lowered := by
  unfold FieldTerm.id
  rw [hvalue]
  split
  · rfl
  · exact congrArg Except.error (congrArg (TermError.notNumeric · _) hname)

theorem keyword_lowered {α : Type} (values : List α) (word : α → String)
    (hvalue : t'.value.value.toLower = t.value.value.toLower) :
    (t'.keyword (findKeyword values word)).mapError TermError.lowered =
      (t.keyword (findKeyword values word)).mapError TermError.lowered := by
  unfold FieldTerm.keyword findKeyword
  rw [hvalue]
  split
  · rfl
  · exact congrArg Except.error (congrArg₂ TermError.invalidValue hname hvalue)

omit hname in
theorem order_lowered (hvalue : t'.value.value.toLower = t.value.value.toLower) :
    t'.order.mapError TermError.lowered = t.order.mapError TermError.lowered := by
  unfold FieldTerm.order Order.ofText?
  rw [hvalue]
  dsimp only
  split
  · rfl
  · exact congrArg Except.error (congrArg TermError.invalidSortKey hvalue)

/-- A field whose name is in other letters, and its value if that is a keyword, says the same. -/
theorem clause_lowered (hoperator : t'.operator.value = t.operator.value)
    (hvalue : t'.value.value = t.value.value ∨
      t.TakesKeyword ∧ t'.value.value.toLower = t.value.value.toLower) :
    t'.clause.mapError TermError.lowered = t.clause.mapError TermError.lowered := by
  have hlower : t'.value.value.toLower = t.value.value.toLower :=
    hvalue.elim (congrArg String.toLower) And.right
  have hfield : Field.ofName? t'.name.value = Field.ofName? t.name.value := by
    unfold Field.ofName? findKeyword
    rw [hname]
  unfold clause
  dsimp only
  rw [hfield, hoperator]
  cases hfound : Field.ofName? t.name.value with
  | none => exact congrArg Except.error (congrArg TermError.invalidField hname)
  | some field =>
      have hexact (hliteral : field.keyword ∉ keywordFields) : t'.value.value = t.value.value := by
        refine hvalue.resolve_right fun hkeyword => hliteral ?_
        rw [keyword_of_findKeyword hfound]
        exact hkeyword.1
      cases field with
      | user | parent | child | pool =>
          simp only [mapError_map]
          rw [id_lowered hname (hexact (by decide))]
      | rating | status | type =>
          simp only [mapError_map]
          exact congrArg (Except.map _) (keyword_lowered hname _ _ hlower)
      | sort =>
          simp only [mapError_map]
          rw [order_lowered hlower]
      | md5 | extension | title | description | context | contains =>
          rw [hexact (by decide)]

end

end FieldTerm

/-! ### Whole queries in other letters -/

theorem mapError_eq_cases {α ε ε' : Type} {x y : Except ε α} {view : ε → ε'}
    (h : x.mapError view = y.mapError view) : x = y ∨
      ∃ e e', x = .error e ∧ y = .error e' ∧ view e = view e' := by
  cases x with
  | error e =>
      cases y with
      | error e' => exact .inr ⟨e, e', rfl, rfl, Except.error.inj h⟩
      | ok b => cases h
  | ok a =>
      cases y with
      | error e' => cases h
      | ok b => exact .inl (congrArg Except.ok (Except.ok.inj h))

/-- A compilation depends on the query by its tags and by what its terms say. -/
theorem compile_lowered_congr {q q' : Query} (hnames : q.tagNames = q'.tagNames)
    (hclauses : q.clauses.mapError TermError.lowered = q'.clauses.mapError TermError.lowered)
    (services : Services) (config : Config) (viewer : Viewer) :
    (compile services config viewer q).lowered = (compile services config viewer q').lowered := by
  rcases mapError_eq_cases hclauses with hsame | ⟨e, e', he, he', hlowered⟩
  · rw [compile_congr hnames hsame]
  · unfold compile
    dsimp only
    rw [hnames]
    split
    · rfl
    · rw [Query.draft_of_clauses_error he, Query.draft_of_clauses_error he']
      unfold Compilation.lowered
      simp only [Except.mapError, CompileError.lowered, hlowered]

/-- Only errors are told apart by the case of letters. -/
theorem Compilation.outcome_of_lowered_eq {c c' : Compilation} {compiled : Compiled}
    (h : c'.lowered = c.lowered) (hc : c.outcome = .ok compiled) : c'.outcome = .ok compiled := by
  have houtcome : c'.outcome.mapError CompileError.lowered =
      c.outcome.mapError CompileError.lowered := congrArg Compilation.outcome h
  rw [hc] at houtcome
  rcases mapError_eq_cases houtcome with hsame | ⟨_, _, -, herror, -⟩
  · exact hsame
  · cases herror

section

variable {text text' : String} {q q' : Query} (h : Query.parse text = .ok q)

/-- The operators of the language have no letters. -/
theorem operator_eq_of_toLower_eq :
    ∀ a ∈ ["=", ">", "<", "!"], ∀ b ∈ ["=", ">", "<", "!"], a.toLower = b.toLower → a = b := by
  decide +kernel

theorem Query.SameButCase.parts_eq {t t' : Token} (hsame : q.SameButCase t t') :
    t'.kind = t.kind ∧ t'.value.toLower = t.value.toLower ∧ t'.position = t.position :=
  Token.lowered_eq_iff.mp (hsame.elim (congrArg Token.lowered) And.right)

theorem Query.SameButCase.toLower_eq {t t' : Token} (hsame : q.SameButCase t t') :
    t'.value.toLower = t.value.toLower :=
  hsame.parts_eq.2.1

theorem Query.SameButCase.lowercase_eq {t t' : Token} (hsame : q.SameButCase t t') :
    lowercase t.value = lowercase t'.value :=
  lowercase_eq_of_toLower_eq hsame.toLower_eq.symm

include h

/-- Tokens that differ in case where the query allows it are parsed alike. -/
theorem exists_parse_of_recased (hrecased : Recased q.IgnoresCaseAt 0 text.toList text'.toList) :
    ∃ q', Query.parse text' = .ok q' ∧ q.Like q.SameButCase q' := by
  have htokens : List.Forall₂ q.SameButCase (tokenize text) (tokenize text') := by
    apply forall₂_imp_of_mem hrecased.forall₂_tokenize
    rintro t ht t' - ⟨hlowered, hsame⟩
    by_cases hcaseless : t ∈ q.caselessWords
    · exact .inr ⟨hcaseless, hlowered⟩
    · apply Or.inl
      apply hsame
      rintro offset hlow hhigh ⟨w, hw, hcovers⟩
      have hword := eq_of_covers ht (mem_tokenize_of_mem_caselessWords h hw) ⟨hlow, hhigh⟩ hcovers
      exact hcaseless (hword ▸ hw)
  have halike := parsesAlike_ofTokens (fun hsame => hsame.parts_eq.1.symm) htokens
    (exists_endOfQuery_tokenize text)
  unfold Query.parse at h ⊢
  rw [h] at halike
  generalize Query.ofTokens (tokenize text') = outcome at halike ⊢
  cases halike with
  | ok hlike => exact ⟨_, rfl, hlike⟩

/-- The terms of two queries that are the same but for case say the same. -/
theorem clauses_lowered_of_like (h' : Query.parse text' = .ok q')
    (hlike : q.Like q.SameButCase q') :
    q'.clauses.mapError TermError.lowered = q.clauses.mapError TermError.lowered := by
  unfold Query.clauses
  rw [mapError_mapM, mapError_mapM]
  apply Eq.symm
  apply mapM_congr
  apply forall₂_imp_of_mem hlike
  intro t ht t' ht' hterm
  rcases hterm.clause_cases Query.SameButCase.lowercase_eq with heq | ⟨f, f', rfl, rfl, hfield⟩
  · rw [heq]
  · have hknown := FieldTerm.operatorKnown_of_parse h ht
    have hknown' := FieldTerm.operatorKnown_of_parse h' ht'
    have hoperator : f'.operator.value = f.operator.value := by
      rcases hfield.operator with hsame | ⟨himplied, himplied'⟩
      · exact operator_eq_of_toLower_eq _ hknown' _ hknown hsame.toLower_eq
      · rw [himplied, himplied']
        rfl
    apply Eq.symm
    apply FieldTerm.clause_lowered hfield.name.toLower_eq hoperator
    rcases hfield.value with heq | ⟨hcaseless, hlowered⟩
    · exact .inl (congrArg Token.value heq)
    · exact .inr ⟨takesKeyword_of_value_mem h ht hcaseless, congrArg Token.value hlowered⟩

end

theorem Query.implies_sameButCase (q : Query) : Implies q.SameButCase q.SameButCase where
  written hsame := hsame
  implied value hsame := .inl (congrArg (Token.mk .implied value) hsame.parts_eq.2.2)

/-- The case of letters makes no difference in tags, in the names of search fields and in keywords. A
query in other letters there is parsed to a tree of the same shape, asks for the same tags, and
compiles to the same query or fails with an error of the same kind. Its parameters begin with what
the terms give, which for all other fields is the value as it is written. -/
theorem compile_recased {text text' : String} {q : Query} (h : Query.parse text = .ok q)
    (hrecased : Recased q.IgnoresCaseAt 0 text.toList text'.toList) :
    ∃ q', Query.parse text' = .ok q' ∧ q.tree.Like q.SameButCase q'.tree ∧
      q'.tagNames = q.tagNames ∧
      ∀ services config viewer,
        (compile services config viewer q').lowered = (compile services config viewer q).lowered ∧
        ∀ c, (compile services config viewer q).outcome = .ok c →
          ∃ parts, List.Forall₂ (Term.Gives services) q.terms parts ∧ parts.flatten <+: c.params := by
  obtain ⟨q', h', hlike⟩ := exists_parse_of_recased h hrecased
  have hnames : q'.tagNames = q.tagNames := (hlike.tagNames_eq Query.SameButCase.lowercase_eq).symm
  have hclauses := clauses_lowered_of_like h h' hlike
  refine ⟨q', h', hlike.tree q.implies_sameButCase, hnames, fun services config viewer => ⟨?_, ?_⟩⟩
  · exact compile_lowered_congr hnames hclauses services config viewer
  · exact fun c hc => exists_given_params hc

/-- A tag with a final sigma, a keyword and a sort key in other letters, beside a text. -/
theorem compile_recased_of_final_sigma :
    let text := "md5:Ff aΣ Type:Image SORT:id_Asc"
    let text' := "MD5:Ff AΣ tYPE:iMAGE sort:ID_aSC"
    ∃ q q', Query.parse text = .ok q ∧ Query.parse text' = .ok q' ∧
      Recased q.IgnoresCaseAt 0 text.toList text'.toList ∧ q'.tagNames = ["aς"] ∧
      ∀ services config viewer c, (compile services config viewer q).outcome = .ok c →
        (compile services config viewer q').outcome = .ok c ∧ [.text "Ff"] <+: c.params := by
  intro text text'
  let hash : FieldTerm :=
    ⟨⟨.word, "md5", 0⟩, ⟨.colon, ":", 3⟩, ⟨.implied, "=", 3⟩, ⟨.word, "Ff", 4⟩⟩
  let q : Query :=
    ⟨.field hash,
      [.tag ⟨false, ⟨.word, "aΣ", 7⟩⟩,
        .field ⟨⟨.word, "Type", 11⟩, ⟨.colon, ":", 15⟩, ⟨.implied, "=", 15⟩, ⟨.word, "Image", 16⟩⟩,
        .field ⟨⟨.word, "SORT", 22⟩, ⟨.colon, ":", 26⟩, ⟨.implied, "=", 26⟩,
          ⟨.word, "id_Asc", 27⟩⟩]⟩
  have hparse : Query.parse text = .ok q := by decide +kernel
  have hrecased : Recased q.IgnoresCaseAt 0 text.toList text'.toList := by decide +kernel
  have hnames : q.tagNames = ["aς"] := by decide +kernel
  have hname : hash.name.value.toLower = "md5" := by decide +kernel
  obtain ⟨q', hparse', -, hnames', hcompile⟩ := compile_recased hparse hrecased
  refine ⟨q, q', hparse, hparse', hrecased, hnames'.trans hnames, ?_⟩
  intro services config viewer c hc
  obtain ⟨hlowered, hparams⟩ := hcompile services config viewer
  obtain ⟨parts, hparts, hprefix⟩ := hparams c hc
  obtain _ | ⟨hgives, _⟩ := hparts
  have hhash : hash.Gives _ := hgives
  simp only [FieldTerm.Gives, hname] at hhash
  rw [List.flatten_cons, hhash] at hprefix
  exact ⟨Compilation.outcome_of_lowered_eq hlowered hc, (List.prefix_append _ _).trans hprefix⟩

end TagQuery
