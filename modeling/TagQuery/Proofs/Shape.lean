import TagQuery.Proofs.Traversal

/-!
The shape of syntax trees. A walk visits each node at its distance from the root, and a query has a
tree with at most three levels: its terms, their parts, and a conjunction above them if it has more
terms than one.
-/

namespace TagQuery

/-- So many steps lead from a node to another one, each of them from a node to one of its
children. -/
inductive Node.Below : Node → Nat → Node → Prop
  | self (node : Node) : node.Below 0 node
  | child {root child node : Node} {steps : Nat} (hchild : child ∈ root.children)
    (h : child.Below steps node) : root.Below (steps + 1) node

/-- Induction on trees: what holds of a node if it holds of all its children. -/
@[elab_as_elim]
theorem Node.induction {motive : Node → Prop}
    (mk : ∀ kind token children, (∀ child ∈ children, motive child) →
      motive ⟨kind, token, children⟩) (node : Node) : motive node :=
  @Node.rec motive (fun nodes => ∀ child ∈ nodes, motive child) mk nofun
    (fun _ _ hnode hnodes => List.forall_mem_cons.mpr ⟨hnode, hnodes⟩) node

/-- Something holds of a node and of all nodes below it. -/
def Node.AllBelow (root : Node) (P : Node → Prop) : Prop :=
  ∀ ⦃steps : Nat⦄ ⦃node : Node⦄, root.Below steps node → P node

theorem Node.AllBelow.self {root : Node} {P : Node → Prop} (h : root.AllBelow P) : P root :=
  h (.self root)

theorem Node.AllBelow.child {root child : Node} {P : Node → Prop} (h : root.AllBelow P)
    (hchild : child ∈ root.children) : child.AllBelow P :=
  fun _ _ hnode => h (.child hchild hnode)

theorem Node.mem_listing {depth : Nat} {v : Visit} (root : Node) :
    v ∈ root.listing depth ↔ ∃ steps, root.Below steps v.node ∧ v.depth = depth + steps := by
  induction root using Node.induction generalizing depth with
  | mk kind token children ih =>
      rw [listing, List.mem_cons, Node.listingEach_eq_flatMap, List.mem_flatMap]
      constructor
      · rintro (rfl | ⟨child, hchild, hv⟩)
        · exact ⟨0, .self _, rfl⟩
        · obtain ⟨steps, hbelow, hdepth⟩ := (ih child hchild).mp hv
          exact ⟨steps + 1, .child hchild hbelow, by omega⟩
      · rintro ⟨steps, hbelow, hdepth⟩
        obtain ⟨_, _⟩ := v
        obtain rfl : _ = depth + steps := hdepth
        cases hbelow with
        | self => exact .inl rfl
        | child hchild hbelow =>
            exact .inr ⟨_, hchild, (ih _ hchild).mpr ⟨_, hbelow, Nat.add_right_comm _ _ 1⟩⟩

/-- The depth of a visit is the distance of its node from the root. -/
theorem Node.mem_visits {root : Node} {v : Visit} :
    v ∈ root.visits ↔ root.Below v.depth v.node := by
  rw [visits_eq_listing, mem_listing]
  simp

/-- A node of a tree that keeps a depth in each of its nodes. -/
structure LeveledNode where
  kind : NodeKind
  token : Token
  depth : Nat
  children : List LeveledNode

namespace LeveledNode

mutual

/-- The tree without the depths. -/
def node : LeveledNode → Node
  | ⟨kind, token, _, children⟩ => ⟨kind, token, nodes children⟩

def nodes : List LeveledNode → List Node
  | [] => []
  | child :: children => child.node :: nodes children

end

mutual

/-- Gives the root a depth and each other node one more than its parent, whatever they have kept. -/
def setDepth (depth : Nat) : LeveledNode → LeveledNode
  | ⟨kind, token, _, children⟩ => ⟨kind, token, depth, setDepthEach (depth + 1) children⟩

def setDepthEach (depth : Nat) : List LeveledNode → List LeveledNode
  | [] => []
  | child :: children => child.setDepth depth :: setDepthEach depth children

end

mutual

/-- The nodes of a tree, each before its children, at the depths that they keep. -/
def visits : LeveledNode → List Visit
  | ⟨kind, token, depth, children⟩ => ⟨depth, ⟨kind, token, nodes children⟩⟩ :: visitsEach children

def visitsEach : List LeveledNode → List Visit
  | [] => []
  | child :: children => child.visits ++ visitsEach children

end

mutual

theorem node_setDepth (depth : Nat) : ∀ root : LeveledNode, (root.setDepth depth).node = root.node
  | ⟨kind, token, _, children⟩ => by
    rw [setDepth, node, node, nodes_setDepthEach (depth + 1) children]

theorem nodes_setDepthEach (depth : Nat) :
    ∀ children : List LeveledNode, nodes (setDepthEach depth children) = nodes children
  | [] => rfl
  | child :: children => by
    rw [setDepthEach, nodes, nodes, node_setDepth depth child, nodes_setDepthEach depth children]

end

mutual

/-- The depths that have been set are those of the listing. -/
theorem visits_setDepth (depth : Nat) :
    ∀ root : LeveledNode, (root.setDepth depth).visits = root.node.listing depth
  | ⟨kind, token, _, children⟩ => by
    rw [setDepth, visits, node, Node.listing, visitsEach_setDepthEach (depth + 1) children,
      nodes_setDepthEach]

theorem visitsEach_setDepthEach (depth : Nat) :
    ∀ children : List LeveledNode,
      visitsEach (setDepthEach depth children) = Node.listingEach depth (nodes children)
  | [] => rfl
  | child :: children => by
    rw [setDepthEach, visitsEach, nodes, Node.listingEach, visits_setDepth depth child,
      visitsEach_setDepthEach depth children]

end

end LeveledNode

theorem NodeKind.showsValue_of_isTag {kind : NodeKind} (h : kind.isTag) : kind.showsValue := by
  cases kind with
  | tag | negatedTag => rfl
  | _ => cases h

theorem TagTerm.isTag_node (t : TagTerm) : t.node.kind.isTag = true := by
  obtain ⟨negated, word⟩ := t
  cases negated <;> rfl

theorem Term.kind_node_ne (t : Term) : t.node.kind ≠ .conjunction := by
  match t with
  | .tag ⟨true, _⟩ | .tag ⟨false, _⟩ | .alternatives .. | .field _ => exact nofun

/-- The parts of a term are tags, or the three parts of a field. -/
theorem Term.part_cases {t : Term} {part : Node} (hpart : part ∈ t.node.children) :
    (∃ tag : TagTerm, part = tag.node) ∨
      ∃ f, t = .field f ∧ (part = ⟨.fieldName, f.name, []⟩ ∨
        part = ⟨.fieldOperator, f.operator, []⟩ ∨ part = ⟨.fieldValue, f.value, []⟩) := by
  cases t with
  | tag tag => cases hpart
  | alternatives opening first second others =>
      obtain ⟨tag, -, rfl⟩ := List.mem_map.mp hpart
      exact .inl ⟨tag, rfl⟩
  | field f => exact .inr ⟨f, rfl, by simpa [node, FieldTerm.node] using hpart⟩

/-- The parts of a term are leaves. -/
theorem Term.part_eq {t : Term} {part : Node} (hpart : part ∈ t.node.children) :
    part.children = [] ∧ part.kind.showsValue := by
  rcases Term.part_cases hpart with ⟨tag, rfl⟩ | ⟨f, -, rfl | rfl | rfl⟩
  · exact ⟨rfl, NodeKind.showsValue_of_isTag tag.isTag_node⟩
  all_goals exact ⟨rfl, rfl⟩

/-- How deep the terms of a query stand in its tree. -/
def Query.termDepth (q : Query) : Nat :=
  if q.others = [] then 0 else 1

/-- The nodes of the tree of a query, with their depths. -/
inductive Query.HasNode (q : Query) : Nat → Node → Prop
  | conjunction (h : q.others ≠ []) :
    q.HasNode 0 ⟨.conjunction, ⟨.implied, "", q.first.token.position⟩, q.terms.map Term.node⟩
  | term {t : Term} (ht : t ∈ q.terms) : q.HasNode q.termDepth t.node
  | part {t : Term} {node : Node} (ht : t ∈ q.terms) (hnode : node ∈ t.node.children) :
    q.HasNode (q.termDepth + 1) node

theorem Query.hasNode_of_term {q : Query} {t : Term} (ht : t ∈ q.terms) {steps : Nat} {node : Node}
    (h : t.node.Below steps node) : q.HasNode (q.termDepth + steps) node := by
  cases h with
  | self => exact .term ht
  | child hpart hbelow =>
      cases hbelow with
      | self => exact .part ht hpart
      | child hchild =>
          rw [(Term.part_eq hpart).1] at hchild
          cases hchild

theorem Query.hasNode_of_below {q : Query} {steps : Nat} {node : Node}
    (h : q.tree.Below steps node) : q.HasNode steps node := by
  obtain ⟨first, others⟩ := q
  cases others with
  | nil =>
      have hterm := Query.hasNode_of_term (q := ⟨first, []⟩) List.mem_cons_self h
      rwa [termDepth, if_pos rfl, Nat.zero_add] at hterm
  | cons second others =>
      cases h with
      | self => exact .conjunction (List.cons_ne_nil second others)
      | child hchild hbelow =>
          obtain ⟨t, ht, rfl⟩ := List.mem_map.mp hchild
          have hterm := Query.hasNode_of_term ht hbelow
          rwa [termDepth, if_neg (List.cons_ne_nil second others), Nat.add_comm] at hterm

/-- What holds of the nodes of a tree. -/
structure Node.IsSyntaxTree (root : Node) : Prop where
  leaf {steps : Nat} {node : Node} (h : root.Below steps node) :
    node.kind.showsValue → node.children = []
  field {steps : Nat} {node : Node} (h : root.Below steps node) : node.kind = .field →
    node.children.map Node.kind = [.fieldName, .fieldOperator, .fieldValue]
  conjunction {steps : Nat} {node : Node} (h : root.Below steps node) : node.kind = .conjunction →
    steps = 0 ∧ 2 ≤ node.children.length ∧ ∀ child ∈ node.children, child.kind ≠ .conjunction
  alternatives {steps : Nat} {node : Node} (h : root.Below steps node) :
    node.kind = .alternatives → 2 ≤ node.children.length ∧
      ∀ child ∈ node.children, child.kind.isTag
  depth {steps : Nat} {node : Node} (h : root.Below steps node) : steps ≤ 2

theorem Query.isSyntaxTree_tree (q : Query) : q.tree.IsSyntaxTree where
  leaf h hkind := by
    cases hasNode_of_below h with
    | conjunction => cases hkind
    | @term t ht =>
        cases t with
        | tag tag => rfl
        | alternatives | field => cases hkind
    | part ht hpart => exact (Term.part_eq hpart).1
  field h hkind := by
    cases hasNode_of_below h with
    | conjunction => cases hkind
    | @term t ht =>
        cases t with
        | tag tag => exact absurd (hkind ▸ tag.isTag_node) (by decide)
        | alternatives => cases hkind
        | field t => rfl
    | part ht hpart => exact absurd (hkind ▸ (Term.part_eq hpart).2) (by decide)
  conjunction h hkind := by
    cases hasNode_of_below h with
    | conjunction hothers =>
        refine ⟨rfl, ?_, fun child hchild => ?_⟩
        · rw [List.length_map]
          exact Nat.succ_le_succ (List.length_pos_iff.mpr hothers)
        · obtain ⟨t, -, rfl⟩ := List.mem_map.mp hchild
          exact t.kind_node_ne
    | @term t ht => exact absurd hkind t.kind_node_ne
    | part ht hpart => exact absurd (hkind ▸ (Term.part_eq hpart).2) (by decide)
  alternatives h hkind := by
    cases hasNode_of_below h with
    | conjunction => cases hkind
    | @term t ht =>
        cases t with
        | tag tag => exact absurd (hkind ▸ tag.isTag_node) (by decide)
        | alternatives opening first second others =>
            refine ⟨Nat.le_add_left 2 _, fun child hchild => ?_⟩
            obtain ⟨tag, -, rfl⟩ := List.mem_map.mp hchild
            exact tag.isTag_node
        | field t => cases hkind
    | part ht hpart => exact absurd (hkind ▸ (Term.part_eq hpart).2) (by decide)
  depth h := by
    have hterm : q.termDepth ≤ 1 := by
      unfold termDepth
      split <;> omega
    cases hasNode_of_below h <;> omega

end TagQuery
