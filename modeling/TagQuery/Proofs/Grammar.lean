import Mathlib.Computability.RegularExpressions
import TagQuery.Query
import TagQuery.Query.Tree

/-!
The grammar of queries, over the kinds of tokens alone, with its derivations. A derivation holds the
tokens that it derives, each of the kind that its rule asks for, and names the syntax tree of the
query. No list of tokens has two derivations.
-/

namespace TagQuery.Grammar

open RegularExpression

/-- One or more. -/
def oneOrMore (rule : RegularExpression TokenKind) : RegularExpression TokenKind :=
  rule * star rule

/-- `WORD | NOT WORD` -/
def tag : RegularExpression TokenKind :=
  char .word + char .negation * char .word

/-- `OR_START tag (OR_CONTINUE tag)+ OR_END` -/
def block : RegularExpression TokenKind :=
  char .orStart * tag * oneOrMore (char .orContinue * tag) * char .orEnd

/-- `WORD META [OPERATOR] WORD` -/
def field : RegularExpression TokenKind :=
  char .word * char .colon * (1 + char .operator) * char .word

/-- `tag | block | field` -/
def term : RegularExpression TokenKind :=
  tag + block + field

/-- `term+` -/
def query : RegularExpression TokenKind :=
  oneOrMore term

/-- The kinds of tokens derive from a rule. -/
def Derives (rule : RegularExpression TokenKind) (tokens : List Token) : Prop :=
  tokens.map Token.kind ∈ rule.matches'

/-- A token of a kind. -/
abbrev Leaf (kind : TokenKind) := { token : Token // token.kind = kind }

inductive TagDerivation where
  | word (word : Leaf .word)
  | negated (dash : Leaf .negation) (word : Leaf .word)

/-- A later alternative of a block, with the separator before it. -/
abbrev NextDerivation := Leaf .orContinue × TagDerivation

inductive TermDerivation where
  | tag (tag : TagDerivation)
  | block (opening : Leaf .orStart) (first : TagDerivation) (second : NextDerivation)
      (others : List NextDerivation) (closing : Leaf .orEnd)
  | field (name : Leaf .word) (colon : Leaf .colon) (operator? : Option (Leaf .operator))
      (value : Leaf .word)

structure QueryDerivation where
  first : TermDerivation
  others : List TermDerivation

namespace TagDerivation

def leaves : TagDerivation → List Token
  | .word w => [w.val]
  | .negated dash w => [dash.val, w.val]

/-- The node of a tag, which carries the word also where it is negated. -/
def node : TagDerivation → Node
  | .word w => ⟨.tag, w.val, []⟩
  | .negated _ w => ⟨.negatedTag, w.val, []⟩

end TagDerivation

def NextDerivation.leaves (next : NextDerivation) : List Token :=
  next.1.val :: next.2.leaves

namespace TermDerivation

def leaves : TermDerivation → List Token
  | .tag t => t.leaves
  | .block opening first second others closing =>
      opening.val :: (first.leaves ++ (second :: others).flatMap NextDerivation.leaves ++
        [closing.val])
  | .field name colon operator? value =>
      name.val :: colon.val :: (operator?.toList.map Subtype.val ++ [value.val])

/-- The node of a term. A field without an operator has an implied one, which stands at the colon. -/
def node : TermDerivation → Node
  | .tag t => t.node
  | .block opening first second others _ =>
      ⟨.alternatives, opening.val, first.node :: (second :: others).map fun next => next.2.node⟩
  | .field name colon operator? value =>
      ⟨.field, colon.val,
        [⟨.fieldName, name.val, []⟩,
          ⟨.fieldOperator, (operator?.map Subtype.val).getD ⟨.implied, "=", colon.val.position⟩, []⟩,
          ⟨.fieldValue, value.val, []⟩]⟩

end TermDerivation

namespace QueryDerivation

def terms (d : QueryDerivation) : List TermDerivation :=
  d.first :: d.others

def leaves (d : QueryDerivation) : List Token :=
  d.terms.flatMap TermDerivation.leaves

/-- The node of a query: that of its only term, or a conjunction of all in their order. -/
def node (d : QueryDerivation) : Node :=
  match d.others with
  | [] => d.first.node
  | _ =>
      ⟨.conjunction, ⟨.implied, "", d.first.node.token.position⟩, d.terms.map TermDerivation.node⟩

end QueryDerivation

/-! ### What the rules derive -/

section Rules

variable {tokens : List Token} {left right : RegularExpression TokenKind}

theorem derives_char {kind : TokenKind} :
    Derives (char kind) tokens ↔ ∃ leaf : Leaf kind, tokens = [leaf.val] := by
  constructor
  · intro h
    obtain ⟨token, rfl, hkind⟩ := List.map_eq_singleton_iff.mp (Set.mem_singleton_iff.mp h)
    exact ⟨⟨token, hkind⟩, rfl⟩
  · rintro ⟨⟨token, rfl⟩, rfl⟩
    exact Set.mem_singleton _

theorem derives_one : Derives 1 tokens ↔ tokens = [] := by
  rw [Derives, matches'_epsilon, Language.mem_one, List.map_eq_nil_iff]

theorem derives_add : Derives (left + right) tokens ↔ Derives left tokens ∨ Derives right tokens :=
  Iff.rfl

theorem derives_mul : Derives (left * right) tokens ↔
    ∃ front back, tokens = front ++ back ∧ Derives left front ∧ Derives right back := by
  rw [Derives, matches'_mul, Language.mem_mul]
  constructor
  · rintro ⟨front, hfront, back, hback, hsplit⟩
    obtain ⟨front, back, rfl, rfl, rfl⟩ := List.map_eq_append_iff.mp hsplit.symm
    exact ⟨front, back, rfl, hfront, hback⟩
  · rintro ⟨front, back, rfl, hfront, hback⟩
    exact ⟨_, hfront, _, hback, List.map_append.symm⟩

theorem derives_star :
    Derives (star left) tokens ↔ ∃ parts : List (List Token), tokens = parts.flatten ∧
      ∀ part ∈ parts, Derives left part := by
  rw [Derives, matches'_star, Language.mem_kstar]
  constructor
  · rintro ⟨kinds, hkinds, hmem⟩
    induction kinds generalizing tokens with
    | nil =>
        rw [List.flatten_nil, List.map_eq_nil_iff] at hkinds
        exact ⟨[], hkinds, by simp⟩
    | cons first kinds ih =>
        rw [List.flatten_cons] at hkinds
        obtain ⟨front, back, rfl, rfl, hback⟩ := List.map_eq_append_iff.mp hkinds
        obtain ⟨parts, rfl, hparts⟩ :=
          ih hback fun part hpart => hmem part (List.mem_cons_of_mem _ hpart)
        refine ⟨front :: parts, rfl, ?_⟩
        intro part hpart
        rcases List.mem_cons.mp hpart with rfl | hpart
        · exact hmem _ List.mem_cons_self
        · exact hparts part hpart
  · rintro ⟨parts, rfl, hparts⟩
    refine ⟨parts.map (List.map Token.kind), List.map_flatten, ?_⟩
    intro kinds hkinds
    obtain ⟨part, hpart, rfl⟩ := List.mem_map.mp hkinds
    exact hparts part hpart

/-- If a rule derives what derivations of a type hold, then several times the rule derives what
several of these hold. -/
theorem derives_oneOrMore {δ : Type} {leaves : δ → List Token}
    (h : ∀ tokens, Derives left tokens ↔ ∃ d, leaves d = tokens) :
    Derives (oneOrMore left) tokens ↔ ∃ first others, (first :: others).flatMap leaves = tokens := by
  rw [oneOrMore, derives_mul]
  constructor
  · rintro ⟨front, back, rfl, hfront, hback⟩
    obtain ⟨first, rfl⟩ := (h front).mp hfront
    obtain ⟨parts, rfl, hparts⟩ := derives_star.mp hback
    suffices hothers : ∃ others : List δ, others.flatMap leaves = parts.flatten by
      obtain ⟨others, hothers⟩ := hothers
      exact ⟨first, others, by rw [List.flatMap_cons, hothers]⟩
    clear hback
    induction parts with
    | nil => exact ⟨[], rfl⟩
    | cons part parts ih =>
        obtain ⟨d, rfl⟩ := (h part).mp (hparts part List.mem_cons_self)
        obtain ⟨others, hothers⟩ := ih fun part hpart => hparts part (List.mem_cons_of_mem _ hpart)
        exact ⟨d :: others, by rw [List.flatMap_cons, List.flatten_cons, hothers]⟩
  · rintro ⟨first, others, rfl⟩
    refine ⟨leaves first, others.flatMap leaves, rfl, (h _).mpr ⟨first, rfl⟩,
      derives_star.mpr ⟨others.map leaves, List.flatMap_def, ?_⟩⟩
    intro part hpart
    obtain ⟨d, -, rfl⟩ := List.mem_map.mp hpart
    exact (h _).mpr ⟨d, rfl⟩

end Rules

theorem derives_tag (tokens : List Token) :
    Derives tag tokens ↔ ∃ d : TagDerivation, d.leaves = tokens := by
  rw [tag, derives_add, derives_mul, derives_char]
  constructor
  · rintro (⟨w, rfl⟩ | ⟨front, back, rfl, hdash, hword⟩)
    · exact ⟨.word w, rfl⟩
    · obtain ⟨dash, rfl⟩ := derives_char.mp hdash
      obtain ⟨w, rfl⟩ := derives_char.mp hword
      exact ⟨.negated dash w, rfl⟩
  · rintro ⟨d, rfl⟩
    cases d with
    | word w => exact Or.inl ⟨w, rfl⟩
    | negated dash w =>
        exact Or.inr ⟨_, _, rfl, derives_char.mpr ⟨dash, rfl⟩, derives_char.mpr ⟨w, rfl⟩⟩

theorem derives_next (tokens : List Token) :
    Derives (char .orContinue * tag) tokens ↔ ∃ d : NextDerivation, d.leaves = tokens := by
  rw [derives_mul]
  constructor
  · rintro ⟨front, back, rfl, hseparator, htag⟩
    obtain ⟨separator, rfl⟩ := derives_char.mp hseparator
    obtain ⟨d, rfl⟩ := (derives_tag back).mp htag
    exact ⟨(separator, d), rfl⟩
  · rintro ⟨⟨separator, d⟩, rfl⟩
    exact ⟨[separator.val], d.leaves, rfl, derives_char.mpr ⟨separator, rfl⟩,
      (derives_tag _).mpr ⟨d, rfl⟩⟩

theorem derives_block (tokens : List Token) :
    Derives block tokens ↔ ∃ opening first second others closing,
      (TermDerivation.block opening first second others closing).leaves = tokens := by
  simp only [block, derives_mul, derives_oneOrMore derives_next]
  constructor
  · rintro ⟨_, _, rfl, ⟨_, _, rfl, ⟨_, _, rfl, hopening, hfirst⟩, ⟨second, others, rfl⟩⟩, hclosing⟩
    obtain ⟨opening, rfl⟩ := derives_char.mp hopening
    obtain ⟨first, rfl⟩ := (derives_tag _).mp hfirst
    obtain ⟨closing, rfl⟩ := derives_char.mp hclosing
    exact ⟨opening, first, second, others, closing, rfl⟩
  · rintro ⟨opening, first, second, others, closing, rfl⟩
    refine ⟨opening.val :: (first.leaves ++ (second :: others).flatMap NextDerivation.leaves),
      [closing.val], rfl, ⟨opening.val :: first.leaves, _, rfl, ⟨[opening.val], _, rfl, ?_, ?_⟩,
        ⟨second, others, rfl⟩⟩, ?_⟩
    · exact derives_char.mpr ⟨opening, rfl⟩
    · exact (derives_tag _).mpr ⟨first, rfl⟩
    · exact derives_char.mpr ⟨closing, rfl⟩

theorem derives_operator (tokens : List Token) :
    Derives (1 + char .operator) tokens ↔
      ∃ operator? : Option (Leaf .operator), operator?.toList.map Subtype.val = tokens := by
  rw [derives_add, derives_one, derives_char]
  constructor
  · rintro (rfl | ⟨operator, rfl⟩)
    · exact ⟨none, rfl⟩
    · exact ⟨some operator, rfl⟩
  · rintro ⟨operator?, rfl⟩
    cases operator? with
    | none => exact Or.inl rfl
    | some operator => exact Or.inr ⟨operator, rfl⟩

theorem derives_field (tokens : List Token) :
    Derives field tokens ↔ ∃ name colon operator? value,
      (TermDerivation.field name colon operator? value).leaves = tokens := by
  simp only [field, derives_mul]
  constructor
  · rintro ⟨_, _, rfl, ⟨_, _, rfl, ⟨_, _, rfl, hname, hcolon⟩, hoperator⟩, hvalue⟩
    obtain ⟨name, rfl⟩ := derives_char.mp hname
    obtain ⟨colon, rfl⟩ := derives_char.mp hcolon
    obtain ⟨operator?, rfl⟩ := (derives_operator _).mp hoperator
    obtain ⟨value, rfl⟩ := derives_char.mp hvalue
    exact ⟨name, colon, operator?, value, rfl⟩
  · rintro ⟨name, colon, operator?, value, rfl⟩
    refine ⟨name.val :: colon.val :: operator?.toList.map Subtype.val, [value.val], rfl,
      ⟨[name.val, colon.val], _, rfl, ⟨[name.val], [colon.val], rfl, ?_, ?_⟩, ?_⟩, ?_⟩
    · exact derives_char.mpr ⟨name, rfl⟩
    · exact derives_char.mpr ⟨colon, rfl⟩
    · exact (derives_operator _).mpr ⟨operator?, rfl⟩
    · exact derives_char.mpr ⟨value, rfl⟩

theorem derives_term (tokens : List Token) :
    Derives term tokens ↔ ∃ d : TermDerivation, d.leaves = tokens := by
  rw [term, derives_add, derives_add, derives_tag, derives_block, derives_field]
  constructor
  · rintro ((⟨t, rfl⟩ | ⟨opening, first, second, others, closing, rfl⟩) |
      ⟨name, colon, operator?, value, rfl⟩)
    · exact ⟨.tag t, rfl⟩
    · exact ⟨_, rfl⟩
    · exact ⟨_, rfl⟩
  · rintro ⟨d, rfl⟩
    cases d with
    | tag t => exact Or.inl (Or.inl ⟨t, rfl⟩)
    | block opening first second others closing =>
        exact Or.inl (Or.inr ⟨opening, first, second, others, closing, rfl⟩)
    | field name colon operator? value => exact Or.inr ⟨name, colon, operator?, value, rfl⟩

/-- The kinds of tokens derive from the grammar exactly if a derivation holds these tokens. -/
theorem derives_query (tokens : List Token) :
    Derives query tokens ↔ ∃ d : QueryDerivation, d.leaves = tokens := by
  rw [query, derives_oneOrMore derives_term]
  constructor
  · rintro ⟨first, others, rfl⟩
    exact ⟨⟨first, others⟩, rfl⟩
  · rintro ⟨⟨first, others⟩, rfl⟩
    exact ⟨first, others, rfl⟩

/-- Tokens that no colon begins, so that a word before them is no field name. -/
def NoColon (tokens : List Token) : Prop :=
  ∀ token ∈ tokens.head?, token.kind ≠ .colon

theorem noColon_cons {token : Token} {tokens : List Token} :
    NoColon (token :: tokens) ↔ token.kind ≠ .colon := by
  simp [NoColon]

theorem TermDerivation.noColon_leaves (d : TermDerivation) (rest : List Token) :
    NoColon (d.leaves ++ rest) := by
  match d with
  | .tag (.word w) => exact noColon_cons.mpr (by rw [w.property]; nofun)
  | .tag (.negated dash _) => exact noColon_cons.mpr (by rw [dash.property]; nofun)
  | .block opening _ _ _ _ => exact noColon_cons.mpr (by rw [opening.property]; nofun)
  | .field name _ _ _ => exact noColon_cons.mpr (by rw [name.property]; nofun)

theorem TermDerivation.leaves_append_ne_nil (d : TermDerivation) (rest : List Token) :
    d.leaves ++ rest ≠ [] := by
  match d with
  | .tag (.word _) | .tag (.negated _ _) | .block .. | .field .. => exact List.cons_ne_nil _ _

theorem noColon_flatMap (terms : List TermDerivation) :
    NoColon (terms.flatMap TermDerivation.leaves) := by
  cases terms with
  | nil => exact nofun
  | cons d terms => exact d.noColon_leaves _

/-- Leaves of two kinds begin different lists. -/
theorem leaf_cons_ne {kind kind' : TokenKind} {leaf : Leaf kind} {leaf' : Leaf kind'}
    {rest rest' : List Token} (h : leaf.val :: rest = leaf'.val :: rest')
    (hkinds : kind ≠ kind' := by decide) : False := by
  have hleaf := congrArg Token.kind (List.cons.inj h).1
  rw [leaf.property, leaf'.property] at hleaf
  exact hkinds hleaf

theorem leaf_cons_inj {kind : TokenKind} {leaf leaf' : Leaf kind} {rest rest' : List Token}
    (h : leaf.val :: rest = leaf'.val :: rest') : leaf = leaf' ∧ rest = rest' := by
  obtain ⟨hleaf, hrest⟩ := List.cons.inj h
  exact ⟨Subtype.ext hleaf, hrest⟩

theorem TagDerivation.leaves_append_inj {d d' : TagDerivation} {rest rest' : List Token}
    (h : d.leaves ++ rest = d'.leaves ++ rest') : d = d' ∧ rest = rest' := by
  match d, d' with
  | .word w, .word w' =>
      obtain ⟨rfl, hrest⟩ := leaf_cons_inj h
      exact ⟨rfl, hrest⟩
  | .word w, .negated dash' w' => exact (leaf_cons_ne h).elim
  | .negated dash w, .word w' => exact (leaf_cons_ne h).elim
  | .negated dash w, .negated dash' w' =>
      obtain ⟨rfl, htail⟩ := leaf_cons_inj h
      obtain ⟨rfl, hrest⟩ := leaf_cons_inj htail
      exact ⟨rfl, hrest⟩

theorem nextDerivations_append_inj {others others' : List NextDerivation}
    {closing closing' : Leaf .orEnd} {rest rest' : List Token}
    (h : others.flatMap NextDerivation.leaves ++ closing.val :: rest =
      others'.flatMap NextDerivation.leaves ++ closing'.val :: rest') :
    others = others' ∧ closing = closing' ∧ rest = rest' := by
  induction others generalizing others' with
  | nil =>
      cases others' with
      | nil =>
          obtain ⟨rfl, hrest⟩ := leaf_cons_inj h
          exact ⟨rfl, rfl, hrest⟩
      | cons next' others' => exact (leaf_cons_ne h).elim
  | cons next others ih =>
      obtain ⟨separator, tag⟩ := next
      cases others' with
      | nil => exact (leaf_cons_ne h).elim
      | cons next' others' =>
          obtain ⟨separator', tag'⟩ := next'
          simp only [List.flatMap_cons, NextDerivation.leaves, List.cons_append,
            List.append_assoc] at h
          obtain ⟨rfl, htags⟩ := leaf_cons_inj h
          obtain ⟨rfl, hothers⟩ := TagDerivation.leaves_append_inj htags
          obtain ⟨rfl, rfl, hrest⟩ := ih hothers
          exact ⟨rfl, rfl, hrest⟩

/-- A word is told from the name of a field by the colon that does not follow. -/
theorem word_ne_field {w : Leaf .word} {name : Leaf .word} {colon : Leaf .colon}
    {operator? : Option (Leaf .operator)} {value : Leaf .word} {rest rest' : List Token}
    (hrest : NoColon rest) : (TermDerivation.tag (.word w)).leaves ++ rest ≠
      (TermDerivation.field name colon operator? value).leaves ++ rest' := by
  intro h
  obtain ⟨-, rfl⟩ := leaf_cons_inj h
  exact noColon_cons.mp hrest colon.property

theorem TermDerivation.leaves_append_inj {d d' : TermDerivation} {rest rest' : List Token}
    (hrest : NoColon rest) (hrest' : NoColon rest') (h : d.leaves ++ rest = d'.leaves ++ rest') :
    d = d' ∧ rest = rest' := by
  match d, d' with
  | .tag t, .tag t' =>
      obtain ⟨rfl, heq⟩ := TagDerivation.leaves_append_inj h
      exact ⟨rfl, heq⟩
  | .tag (.word w), .block .. => exact (leaf_cons_ne h).elim
  | .tag (.word w), .field .. => exact absurd h (word_ne_field hrest)
  | .tag (.negated dash w), .block .. => exact (leaf_cons_ne h).elim
  | .tag (.negated dash w), .field .. => exact (leaf_cons_ne h).elim
  | .block .., .tag (.word w) => exact (leaf_cons_ne h).elim
  | .block .., .tag (.negated dash w) => exact (leaf_cons_ne h).elim
  | .block .., .field .. => exact (leaf_cons_ne h).elim
  | .field .., .tag (.word w) => exact absurd h.symm (word_ne_field hrest')
  | .field .., .tag (.negated dash w) => exact (leaf_cons_ne h).elim
  | .field .., .block .. => exact (leaf_cons_ne h).elim
  | .block opening first second others closing,
      .block opening' first' second' others' closing' =>
      simp only [leaves, List.cons_append, List.append_assoc, List.nil_append] at h
      obtain ⟨rfl, htags⟩ := leaf_cons_inj h
      obtain ⟨rfl, hothers⟩ := TagDerivation.leaves_append_inj htags
      obtain ⟨hnext, rfl, heq⟩ := nextDerivations_append_inj hothers
      obtain ⟨rfl, rfl⟩ := List.cons.inj hnext
      exact ⟨rfl, heq⟩
  | .field name colon operator? value, .field name' colon' operator?' value' =>
      obtain ⟨rfl, hcolon⟩ := leaf_cons_inj h
      obtain ⟨rfl, hoperator⟩ := leaf_cons_inj hcolon
      match operator?, operator?' with
      | none, none =>
          obtain ⟨rfl, heq⟩ := leaf_cons_inj hoperator
          exact ⟨rfl, heq⟩
      | none, some operator' => exact (leaf_cons_ne hoperator).elim
      | some operator, none => exact (leaf_cons_ne hoperator).elim
      | some operator, some operator' =>
          obtain ⟨rfl, hvalue⟩ := leaf_cons_inj hoperator
          obtain ⟨rfl, heq⟩ := leaf_cons_inj hvalue
          exact ⟨rfl, heq⟩

theorem terms_leaves_inj {terms terms' : List TermDerivation}
    (h : terms.flatMap TermDerivation.leaves = terms'.flatMap TermDerivation.leaves) :
    terms = terms' := by
  induction terms generalizing terms' with
  | nil =>
      cases terms' with
      | nil => rfl
      | cons d' terms' => exact absurd h.symm (d'.leaves_append_ne_nil _)
  | cons d terms ih =>
      cases terms' with
      | nil => exact absurd h (d.leaves_append_ne_nil _)
      | cons d' terms' =>
          obtain ⟨rfl, hterms⟩ := TermDerivation.leaves_append_inj (noColon_flatMap terms)
            (noColon_flatMap terms') h
          rw [ih hterms]

/-- The grammar is unambiguous. -/
theorem QueryDerivation.leaves_injective : Function.Injective QueryDerivation.leaves := by
  intro d d' h
  obtain ⟨first, others⟩ := d
  obtain ⟨first', others'⟩ := d'
  obtain ⟨rfl, rfl⟩ := List.cons.inj (terms_leaves_inj h)
  rfl

end TagQuery.Grammar
