import TagQuery.Proofs.Parsing
import TagQuery.Proofs.Spacing

/-!
Where tokens stand makes no difference to how they are parsed. Tokens that have been moved have the
same tree, moved likewise.
-/

namespace TagQuery

variable (move : Nat → Nat)

mutual

/-- A tree whose tokens have been moved. -/
def Node.moved (move : Nat → Nat) : Node → Node
  | ⟨kind, token, children⟩ => ⟨kind, token.moved move, Node.allMoved move children⟩

def Node.allMoved (move : Nat → Nat) : List Node → List Node
  | [] => []
  | node :: nodes => node.moved move :: Node.allMoved move nodes

end

/-- A tree wherever its tokens stand. -/
def Node.unplaced (node : Node) : Node :=
  node.moved fun _ => 0

theorem Node.allMoved_eq_map (nodes : List Node) :
    Node.allMoved move nodes = nodes.map (Node.moved move) := by
  induction nodes with
  | nil => rw [allMoved, List.map_nil]
  | cons node nodes ih => rw [allMoved, List.map_cons, ih]

theorem Node.moved_mk (kind : NodeKind) (token : Token) (children : List Node) :
    (⟨kind, token, children⟩ : Node).moved move =
      ⟨kind, token.moved move, children.map (Node.moved move)⟩ := by
  rw [moved, allMoved_eq_map]

theorem Node.token_moved (node : Node) : (node.moved move).token = node.token.moved move := by
  cases node
  rw [moved_mk]

theorem Node.children_moved (node : Node) :
    (node.moved move).children = node.children.map (Node.moved move) := by
  cases node
  rw [moved_mk]

def Visit.moved (v : Visit) : Visit :=
  ⟨v.depth, v.node.moved move⟩

/-- A visit wherever the tokens of its node stand. -/
def Visit.unplaced (v : Visit) : Visit :=
  v.moved fun _ => 0

def Walk.moved (w : Walk) : Walk :=
  ⟨w.due.map (Visit.moved move)⟩

theorem Walk.next_moved (w : Walk) :
    (w.moved move).next = w.next.map fun (visit, w') => (visit.moved move, w'.moved move) := by
  obtain ⟨due⟩ := w
  cases due with
  | nil => rfl
  | cons visit due =>
      simp [Walk.moved, Walk.next, Visit.moved, Node.children_moved, Function.comp_def]

theorem Walk.visits_of_next_eq_none {w : Walk} (h : w.next = none) : w.visits = [] := by
  rw [visits]
  split
  next => rfl
  next visit w' hsome => cases h.symm.trans hsome

theorem Walk.visits_of_next_eq_some {w w' : Walk} {visit : Visit}
    (h : w.next = some (visit, w')) : w.visits = visit :: w'.visits := by
  rw [visits]
  split
  next hnone => cases h.symm.trans hnone
  next other w'' hsome =>
    cases h.symm.trans hsome
    rfl

theorem Walk.visits_moved (w : Walk) :
    (w.moved move).visits = w.visits.map (Visit.moved move) := by
  have hmoved := next_moved move w
  induction w using Walk.visits.induct with
  | case1 w hnext =>
      rw [hnext] at hmoved
      rw [visits_of_next_eq_none hnext, visits_of_next_eq_none hmoved, List.map_nil]
  | case2 w visit w' hnext ih =>
      rw [hnext] at hmoved
      rw [visits_of_next_eq_some hnext, visits_of_next_eq_some hmoved, List.map_cons,
        ih (next_moved move w')]

/-- A tree that has been moved is walked in the same way. -/
theorem Node.visits_moved (root : Node) :
    (root.moved move).visits = root.visits.map (Visit.moved move) :=
  Walk.visits_moved move (.ofNode root)

namespace Grammar

def Leaf.moved {kind : TokenKind} (leaf : Leaf kind) : Leaf kind :=
  ⟨leaf.val.moved move, leaf.property⟩

def TagDerivation.moved : TagDerivation → TagDerivation
  | .word w => .word (Leaf.moved move w)
  | .negated dash w => .negated (Leaf.moved move dash) (Leaf.moved move w)

def NextDerivation.moved (next : NextDerivation) : NextDerivation :=
  (Leaf.moved move next.1, next.2.moved move)

def TermDerivation.moved : TermDerivation → TermDerivation
  | .tag t => .tag (t.moved move)
  | .block opening first second others closing =>
      .block (Leaf.moved move opening) (first.moved move) (NextDerivation.moved move second)
        (others.map (NextDerivation.moved move)) (Leaf.moved move closing)
  | .field name colon operator? value =>
      .field (Leaf.moved move name) (Leaf.moved move colon) (operator?.map (Leaf.moved move))
        (Leaf.moved move value)

def QueryDerivation.moved (d : QueryDerivation) : QueryDerivation :=
  ⟨d.first.moved move, d.others.map (TermDerivation.moved move)⟩

theorem TagDerivation.leaves_moved (d : TagDerivation) :
    (d.moved move).leaves = d.leaves.map (Token.moved move) := by
  cases d <;> rfl

theorem NextDerivation.leaves_moved (next : NextDerivation) :
    (NextDerivation.moved move next).leaves = next.leaves.map (Token.moved move) := by
  rw [leaves, leaves, List.map_cons, ← TagDerivation.leaves_moved]
  rfl

theorem TermDerivation.leaves_moved (d : TermDerivation) :
    (d.moved move).leaves = d.leaves.map (Token.moved move) := by
  cases d with
  | tag t => exact t.leaves_moved move
  | block opening first second others closing =>
      simp [moved, leaves, List.flatMap_map, List.map_flatMap, TagDerivation.leaves_moved,
        NextDerivation.leaves_moved, Leaf.moved]
  | field name colon operator? value =>
      cases operator? <;> rfl

theorem QueryDerivation.leaves_moved (d : QueryDerivation) :
    (d.moved move).leaves = d.leaves.map (Token.moved move) := by
  simp [moved, leaves, terms, List.flatMap_map, List.map_flatMap, TermDerivation.leaves_moved]

theorem TagDerivation.node_moved (d : TagDerivation) :
    (d.moved move).node = d.node.moved move := by
  cases d <;> simp [moved, node, Node.moved_mk, Leaf.moved]

theorem TermDerivation.node_moved (d : TermDerivation) :
    (d.moved move).node = d.node.moved move := by
  cases d with
  | tag t => exact t.node_moved move
  | block opening first second others closing =>
      simp [moved, node, Node.moved_mk, TagDerivation.node_moved, NextDerivation.moved, Leaf.moved,
        Function.comp_def]
  | field name colon operator? value =>
      cases operator? <;> simp [moved, node, Node.moved_mk, Leaf.moved, Token.moved]

theorem QueryDerivation.node_moved (d : QueryDerivation) :
    (d.moved move).node = d.node.moved move := by
  obtain ⟨first, others⟩ := d
  cases others with
  | nil => exact first.node_moved move
  | cons second others =>
      simp [moved, node, terms, Node.moved_mk, TermDerivation.node_moved, Node.token_moved,
        Token.moved, Function.comp_def]

end Grammar

open Grammar

theorem beforeEnd_map_moved (tokens : List Token) :
    beforeEnd (tokens.map (Token.moved move)) = (beforeEnd tokens).map (Token.moved move) := by
  rw [beforeEnd, beforeEnd, List.takeWhile_map]
  rfl

theorem derives_map_moved {rule : RegularExpression TokenKind} {tokens : List Token} :
    Derives rule (tokens.map (Token.moved move)) ↔ Derives rule tokens := by
  rw [Derives, Derives, List.map_map]
  rfl

/-- Tokens that have been moved have a tree exactly if they had one, which is moved likewise. -/
theorem tree_ofTokens_map_moved {tokens : List Token} {root : Node} :
    (Query.ofTokens (tokens.map (Token.moved move))).map Query.tree = .ok root ↔
      ∃ root', (Query.ofTokens tokens).map Query.tree = .ok root' ∧ root'.moved move = root := by
  simp only [tree_ofTokens_eq_ok, beforeEnd_map_moved]
  constructor
  · rintro ⟨d, hleaves, rfl⟩
    have hderives := (derives_query _).mpr ⟨d, hleaves⟩
    obtain ⟨d', hleaves'⟩ := (derives_query _).mp ((derives_map_moved move).mp hderives)
    have heq : d'.moved move = d := by
      apply QueryDerivation.leaves_injective
      rw [d'.leaves_moved, hleaves', hleaves]
    exact ⟨d'.node, ⟨d', hleaves', rfl⟩, by rw [← heq, d'.node_moved]⟩
  · rintro ⟨_, ⟨d, hleaves, rfl⟩, rfl⟩
    exact ⟨d.moved move, by rw [d.leaves_moved, hleaves], d.node_moved move⟩

end TagQuery
