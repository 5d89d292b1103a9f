import TagQuery.Query

/-!
The syntax tree of a query, the walk over a tree that visits each node before its children, and the
listing of a tree with one node a line, indented by its depth.
-/

namespace TagQuery

/-- The kinds of nodes of a syntax tree. -/
inductive NodeKind where
  | conjunction
  | alternatives
  | tag
  | negatedTag
  | field
  | fieldName
  | fieldOperator
  | fieldValue
  deriving DecidableEq, Repr

namespace NodeKind

def name : NodeKind → String
  | .conjunction => "AND"
  | .alternatives => "OR"
  | .tag => "TAG"
  | .negatedTag => "NOT_TAG"
  | .field => "META"
  | .fieldName => "META_FIELD"
  | .fieldOperator => "META_OPERATOR"
  | .fieldValue => "META_VALUE"

/-- Whether nodes of a kind stand for a text of the query, which a listing shows. -/
def showsValue : NodeKind → Bool
  | .conjunction | .alternatives | .field => false
  | _ => true

end NodeKind

/-- A node of a syntax tree, with the token it is known by. -/
structure Node where
  kind : NodeKind
  token : Token
  children : List Node
  deriving Repr

mutual

/-- The number of nodes of a tree. -/
def Node.size : Node → Nat
  | ⟨_, _, children⟩ => Node.sizes children + 1

/-- The number of nodes of trees. -/
def Node.sizes : List Node → Nat
  | [] => 0
  | node :: nodes => node.size + Node.sizes nodes

end

theorem Node.sizes_append (xs ys : List Node) :
    Node.sizes (xs ++ ys) = Node.sizes xs + Node.sizes ys := by
  induction xs with
  | nil => simp [Node.sizes]
  | cons x xs ih => simp [Node.sizes, ih, Nat.add_assoc]

theorem Node.size_eq (node : Node) : node.size = Node.sizes node.children + 1 := by
  cases node
  simp [Node.size]

/-- A node of a walk, with its distance from the root. -/
structure Visit where
  depth : Nat
  node : Node
  deriving Repr

/-- A walk under way: the visits that are due, the next one first. -/
structure Walk where
  due : List Visit
  deriving Repr

namespace Walk

def ofNode (root : Node) : Walk :=
  ⟨[⟨0, root⟩]⟩

/-- Visits the node that is due. Its children are then due before all else. -/
def next : Walk → Option (Visit × Walk)
  | ⟨[]⟩ => none
  | ⟨visit :: due⟩ => some (visit, ⟨visit.node.children.map (⟨visit.depth + 1, ·⟩) ++ due⟩)

/-- The number of visits that are left. -/
def remaining (w : Walk) : Nat :=
  Node.sizes (w.due.map Visit.node)

theorem remaining_next {w w' : Walk} {visit : Visit} (h : w.next = some (visit, w')) :
    w.remaining = w'.remaining + 1 := by
  obtain ⟨due⟩ := w
  cases due with
  | nil => cases h
  | cons first due =>
    cases h
    simp only [remaining, List.map_cons, List.map_append, List.map_map, Function.comp_def,
      List.map_id', Node.sizes, Node.sizes_append, Node.size_eq]
    omega

/-- All visits that are left, in order. -/
def visits (w : Walk) : List Visit :=
  match _ : w.next with
  | none => []
  | some (visit, w') => visit :: w'.visits
termination_by w.remaining
decreasing_by
  have := remaining_next ‹w.next = some (visit, w')›
  omega

end Walk

/-- The nodes of a tree, each before its children. -/
def Node.visits (root : Node) : List Visit :=
  (Walk.ofNode root).visits

/-- One line of a listing. -/
def Visit.line (v : Visit) : String :=
  let value := if v.node.kind.showsValue then " " ++ v.node.token.value else ""
  String.ofList (List.replicate (2 * v.depth) ' ') ++ v.node.kind.name ++ value ++ "\n"

/-- The listing of a tree. -/
def Node.render (root : Node) : String :=
  String.join (root.visits.map Visit.line)

def TagTerm.node (t : TagTerm) : Node :=
  ⟨if t.negated then .negatedTag else .tag, t.word, []⟩

def FieldTerm.node (t : FieldTerm) : Node :=
  ⟨.field, t.colon,
    [⟨.fieldName, t.name, []⟩, ⟨.fieldOperator, t.operator, []⟩, ⟨.fieldValue, t.value, []⟩]⟩

def Term.node : Term → Node
  | .tag t => t.node
  | .alternatives opening first second others =>
    ⟨.alternatives, opening, (first :: second :: others).map TagTerm.node⟩
  | .field t => t.node

/-- The syntax tree of a query: a lone term is its own tree, and several are joined under a node
that stands where the first of them stands. -/
def Query.tree (q : Query) : Node :=
  match q.others with
  | [] => q.first.node
  | _ => ⟨.conjunction, ⟨.implied, "", q.first.token.position⟩, q.terms.map Term.node⟩

end TagQuery
