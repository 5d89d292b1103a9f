import TagQuery.Proofs.Lookups
import TagQuery.Proofs.Lowering

/-!
The parameters of compiled queries. The leaves of a condition take the parameters one after another:
the first leaf takes the first of them, and each has the kind of value that its leaf asks for.
-/

namespace TagQuery

/-- The kinds of values that parameters have. -/
inductive ParamKind where
  | id
  | text
  deriving DecidableEq, Repr

def Param.kind : Param → ParamKind
  | .id _ => .id
  | .text _ => .text

/-- What a column is compared with. Accounts go by their ids, and all other columns hold texts. -/
def Column.kind : Column → ParamKind
  | .accountId => .id
  | _ => .text

namespace Predicate

mutual

/-- What the leaves of a condition take, from left to right: a parameter of some kind, by its
index. -/
def leaves : Predicate → List (ParamKind × Nat)
  | .always | .never => []
  | .and parts | .or parts => leavesOfEach parts
  | .not part => part.leaves
  | .hasTag param | .childOf param | .parentOf param | .inPool param => [(.id, param)]
  | .compare column _ param => [(column.kind, param)]
  | .contains _ param => [(.text, param)]

def leavesOfEach : List Predicate → List (ParamKind × Nat)
  | [] => []
  | part :: parts => part.leaves ++ leavesOfEach parts

end

mutual

/-- Every conjunction and every disjunction of a condition has two parts at least. -/
def IsBranched : Predicate → Prop
  | .and parts | .or parts => 2 ≤ parts.length ∧ AreBranched parts
  | .not part => part.IsBranched
  | .always | .never | .hasTag _ | .compare .. | .contains .. => True
  | .childOf _ | .parentOf _ | .inPool _ => True

def AreBranched : List Predicate → Prop
  | [] => True
  | part :: parts => part.IsBranched ∧ AreBranched parts

end

theorem leavesOfEach_append (parts more : List Predicate) :
    leavesOfEach (parts ++ more) = leavesOfEach parts ++ leavesOfEach more := by
  induction parts with
  | nil => rfl
  | cons part parts ih => rw [List.cons_append, leavesOfEach, leavesOfEach, ih, List.append_assoc]

theorem areBranched_append {parts more : List Predicate} :
    AreBranched (parts ++ more) ↔ AreBranched parts ∧ AreBranched more := by
  induction parts with
  | nil => simp [AreBranched]
  | cons part parts ih => rw [List.cons_append, AreBranched, AreBranched, ih, and_assoc]

theorem leaves_all (parts : List Predicate) : (all parts).leaves = leavesOfEach parts := by
  match parts with
  | [] => rfl
  | [part] => exact (List.append_nil _).symm
  | first :: second :: others => rfl

theorem leaves_any (parts : List Predicate) : (any parts).leaves = leavesOfEach parts := by
  match parts with
  | [] => rfl
  | [part] => exact (List.append_nil _).symm
  | first :: second :: others => rfl

theorem isBranched_all {parts : List Predicate} (h : AreBranched parts) :
    (all parts).IsBranched := by
  match parts with
  | [] => trivial
  | [part] => exact h.1
  | first :: second :: others => exact ⟨Nat.le_add_left 2 _, h⟩

theorem isBranched_any {parts : List Predicate} (h : AreBranched parts) :
    (any parts).IsBranched := by
  match parts with
  | [] => trivial
  | [part] => exact h.1
  | first :: second :: others => exact ⟨Nat.le_add_left 2 _, h⟩

end Predicate

open Predicate

namespace Piece

/-- The leaves of a piece take its own parameters in their order, numbered on from those before
it. -/
structure IsNumbered (piece : Nat → Piece) : Prop where
  leaves (base : Nat) :
    (piece base).predicate.leaves = ((piece base).params.map Param.kind).zipIdx base
  branched (base : Nat) : (piece base).predicate.IsBranched

theorem isNumbered_single {predicate : Nat → Predicate} {param : Param}
    (hleaves : ∀ index, (predicate index).leaves = [(param.kind, index)])
    (hbranched : ∀ index, (predicate index).IsBranched) : IsNumbered (single predicate param) :=
  ⟨hleaves, hbranched⟩

variable {pieces : List (Nat → Piece)}

theorem leavesOfEach_sequence (h : ∀ piece ∈ pieces, IsNumbered piece) (base : Nat) :
    leavesOfEach (sequence base pieces).1 =
      ((sequence base pieces).2.map Param.kind).zipIdx base := by
  induction pieces generalizing base with
  | nil => rfl
  | cons piece pieces ih =>
      obtain ⟨hpiece, hpieces⟩ := List.forall_mem_cons.mp h
      simp only [sequence, leavesOfEach]
      rw [hpiece.leaves, ih hpieces, List.map_append, List.zipIdx_append, List.length_map]

theorem areBranched_sequence (h : ∀ piece ∈ pieces, IsNumbered piece) (base : Nat) :
    AreBranched (sequence base pieces).1 := by
  induction pieces generalizing base with
  | nil => trivial
  | cons piece pieces ih =>
      obtain ⟨hpiece, hpieces⟩ := List.forall_mem_cons.mp h
      exact ⟨hpiece.branched base, ih hpieces _⟩

theorem isNumbered_any (h : ∀ piece ∈ pieces, IsNumbered piece) : IsNumbered (any pieces) where
  leaves base := (leaves_any _).trans (leavesOfEach_sequence h base)
  branched base := isBranched_any (areBranched_sequence h base)

end Piece

open Piece

theorem TagTest.isNumbered_piece (table : TagTable) (test : TagTest) :
    IsNumbered (test.piece table) := by
  rw [TagTest.piece_eq]
  cases table.id? test.name <;> cases test.negated <;> exact ⟨fun _ => rfl, fun _ => trivial⟩

/-- A clause that compares a column with a text compares one that holds texts. -/
def Clause.IsTyped : Clause → Prop
  | .text column _ _ => column.kind = .text
  | _ => True

theorem FieldTerm.isTyped_of_clause {t : FieldTerm} {clause : Clause} (h : t.clause = .ok clause) :
    clause.IsTyped := by
  cases hfield : Field.ofName? t.name.value with
  | none =>
      rw [FieldTerm.clause, hfield] at h
      cases h
  | some field =>
      cases field <;> simp only [FieldTerm.clause, hfield, map_eq_ok_iff, Except.ok.injEq] at h
      case md5 | extension =>
        subst h
        rfl
      case title | description | context | contains =>
        subst h
        trivial
      all_goals
        obtain ⟨value, _, rfl⟩ := h
        trivial

theorem Term.isTyped_of_clause {t : Term} {clause : Clause} (h : t.clause = .ok clause) :
    clause.IsTyped := by
  cases t with
  | tag tag | alternatives opening first second others =>
      cases h
      trivial
  | field f => exact FieldTerm.isTyped_of_clause h

theorem Clause.isNumbered_piece? {legacyLessThan : Bool} {table : TagTable} {clause : Clause}
    {piece : Nat → Piece} (htyped : clause.IsTyped)
    (h : clause.piece? legacyLessThan table = some piece) : IsNumbered piece := by
  cases clause with
  | tag test =>
      cases h
      exact test.isNumbered_piece table
  | alternatives tests =>
      cases h
      exact isNumbered_any (List.forall_mem_map.mpr fun test _ => test.isNumbered_piece table)
  | contains columns value =>
      cases h
      exact isNumbered_any (List.forall_mem_map.mpr fun _ _ =>
        isNumbered_single (fun _ => rfl) fun _ => trivial)
  | text column operator value =>
      cases h
      refine isNumbered_single (fun index => ?_) fun _ => trivial
      rw [leaves, show column.kind = .text from htyped]
      rfl
  | sort order => cases h
  | user | rating | status | fileType | childOf | parentOf | inPool =>
      cases h
      exact isNumbered_single (fun _ => rfl) fun _ => trivial

namespace Draft

variable {d : Draft}

theorem isNumbered_of_mem_pieces (htyped : ∀ clause ∈ d.clauses, clause.IsTyped) (config : Config) :
    ∀ piece ∈ d.pieces config, IsNumbered piece := by
  intro piece hpiece
  obtain ⟨clause, hclause, hlower⟩ := List.mem_filterMap.mp hpiece
  exact Clause.isNumbered_piece? (htyped clause hclause) hlower

theorem isNumbered_of_mem_exclusions (d : Draft) (config : Config)
    (visibility? : Option Visibility) :
    ∀ piece ∈ d.exclusions config visibility?, IsNumbered piece := by
  intro piece hpiece
  rcases List.mem_append.mp hpiece with hrating | hstatus
  · obtain ⟨rating, _, rfl⟩ := List.mem_map.mp hrating
    exact isNumbered_single (fun _ => rfl) fun _ => trivial
  · split at hstatus
    · cases List.mem_singleton.mp hstatus
      exact isNumbered_single (fun _ => rfl) fun _ => trivial
    · cases hstatus

/-- The leaves of a condition take its parameters, each once and in their order. -/
theorem leaves_finish (htyped : ∀ clause ∈ d.clauses, clause.IsTyped) (config : Config)
    (visibility? : Option Visibility) :
    (d.finish config visibility?).predicate.leaves =
      ((d.finish config visibility?).params.map Param.kind).zipIdx := by
  have hown := leavesOfEach_sequence (isNumbered_of_mem_pieces htyped config) 0
  have hadded := leavesOfEach_sequence (d.isNumbered_of_mem_exclusions config visibility?)
    (sequence 0 (d.pieces config)).2.length
  have hparts (parts : List Predicate) :
      leavesOfEach (if d.clauses.length = 1 then parts else [all parts]) = leavesOfEach parts := by
    split
    · rfl
    · exact (List.append_nil _).trans (leaves_all parts)
  show (all _).leaves = _
  rw [leaves_all, leavesOfEach_append, hparts, hown, hadded]
  show _ = (((sequence 0 (d.pieces config)).2 ++ _).map Param.kind).zipIdx
  rw [List.map_append, List.zipIdx_append, List.length_map, Nat.zero_add]

theorem isBranched_finish (htyped : ∀ clause ∈ d.clauses, clause.IsTyped) (config : Config)
    (visibility? : Option Visibility) : (d.finish config visibility?).predicate.IsBranched := by
  have hown := areBranched_sequence (isNumbered_of_mem_pieces htyped config) 0
  have hadded := areBranched_sequence (d.isNumbered_of_mem_exclusions config visibility?)
    (sequence 0 (d.pieces config)).2.length
  refine isBranched_all (areBranched_append.mpr ⟨?_, hadded⟩)
  split
  · exact hown
  · exact ⟨isBranched_all hown, trivial⟩

end Draft

end TagQuery
