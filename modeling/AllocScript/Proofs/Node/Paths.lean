import Mathlib
import AllocScript.Eval

/-!
# Nodes by their paths

`Node.subtree?` finds the node at a path and `Node.replaceAt` puts another tree in its place. A
node lies no deeper than the tree is deep (`Node.length_add_depth_le`). Children become operands one
by one (`operandsOf_append`, `get_operandsOf`), and the operands of a call are what its operator is
applied to (`evalList_call`).
-/

namespace AllocScript

namespace Node

def child? (n : Node) (i : Nat) : Option Node := n.children?.bind (·[i]?)

/-- The node at a path. -/
def subtree? (n : Node) : NodePath → Option Node
  | [] => some n
  | i :: path => (n.subtree? path).bind (·.child? i)

/-- A list with another child in the place of one. -/
def withChild (n : Node) (i : Nat) (m : Node) : Node :=
  match n with
  | atom a p => atom a p
  | list kind children p => list kind (children.set i m) p

/-- The tree with another one in the place of the node at a path. -/
def replaceAt (n : Node) : NodePath → Node → Node
  | [], m => m
  | i :: path, m =>
    match n.subtree? path with
    | some parent => n.replaceAt path (parent.withChild i m)
    | none => n

theorem subtree?_child {n : Node} {path : NodePath} {kind : ListKind} {children : List Node}
    {p i : Nat} (h : n.subtree? path = some (.list kind children p)) :
    n.subtree? (i :: path) = children[i]? := by
  rw [subtree?, h]
  rfl

/-- A list with another child calls the same operator, unless that child is the head. -/
theorem head?_set {kind : ListKind} {children : List Node} {i : Nat} {m m' : Node}
    (hchild : children[i]? = some m)
    (hsymbol : kind = .plain → i = 0 → m.symbol? = m'.symbol?) (p : Nat) :
    (list kind children p).head? = (list kind (children.set i m') p).head? := by
  cases kind with
  | map => rfl
  | plain =>
    cases children with
    | nil => cases hchild
    | cons first rest =>
      cases i with
      | succ i => rfl
      | zero =>
        cases hchild
        show (if m.isKeyword then none else m.symbol?) = if m'.isKeyword then none else m'.symbol?
        unfold isKeyword
        rw [hsymbol rfl rfl]

/-! ## Depth -/

theorem depth_le_depthOfAll {m : Node} {ns : List Node} (h : m ∈ ns) :
    m.depth ≤ depthOfAll ns := by
  induction ns with
  | nil => cases h
  | cons n ns ih =>
    rcases List.mem_cons.1 h with rfl | h
    · exact Nat.le_max_left _ _
    · exact (ih h).trans (Nat.le_max_right _ _)

/-- A deeper child makes the children no less deep. -/
theorem depthOfAll_le_set {m m' : Node} {ns : List Node} {i : Nat} (h : ns[i]? = some m)
    (hle : m.depth ≤ m'.depth) : depthOfAll ns ≤ depthOfAll (ns.set i m') := by
  induction ns generalizing i with
  | nil => cases h
  | cons n ns ih =>
    cases i with
    | zero =>
      cases h
      exact max_le_max_right _ hle
    | succ i => exact max_le_max_left _ (ih h)

/-- A node lies no deeper than the tree is deep. -/
theorem length_add_depth_le {n m : Node} {path : NodePath} (h : n.subtree? path = some m) :
    path.length + m.depth ≤ n.depth := by
  induction path generalizing m with
  | nil =>
    cases h
    exact (Nat.zero_add _).le
  | cons i path ih =>
    obtain ⟨parent, hparent, hchild⟩ := Option.bind_eq_some_iff.1 h
    cases parent with
    | atom a p => cases hchild
    | list kind children p =>
      have hdepth := depth_le_depthOfAll (List.mem_of_getElem? hchild)
      have hle := ih hparent
      rw [depth] at hle
      rw [List.length_cons]
      omega

end Node

/-! ## Children as operands -/

theorem operandsOf_append (ns ms : List Node) (path : NodePath) (index : Nat) :
    Node.operandsOf (ns ++ ms) path index =
      Node.operandsOf ns path index ++ Node.operandsOf ms path (index + ns.length) := by
  induction ns generalizing index with
  | nil => rfl
  | cons n ns ih =>
    simp only [List.cons_append, Node.operandsOf, ih, List.length_cons, Nat.add_assoc,
      Nat.add_comm 1]

theorem length_operandsOf (ns : List Node) (path : NodePath) (index : Nat) :
    (Node.operandsOf ns path index).length = ns.length := by
  induction ns generalizing index with
  | nil => rfl
  | cons n ns ih => simp only [Node.operandsOf, List.length_cons, ih]

theorem get_operandsOf (ns : List Node) (path : NodePath) (index : Nat) {j : Nat}
    (h : j < ns.length) :
    (Node.operandsOf ns path index).get ⟨j, by rwa [length_operandsOf]⟩ =
      ⟨ns[j], ns[j].eval ((index + j) :: path)⟩ := by
  induction ns generalizing index j with
  | nil => cases h
  | cons n ns ih =>
    cases j with
    | zero => rfl
    | succ j =>
      have hrest := ih (index + 1) (Nat.lt_of_succ_lt_succ h)
      rwa [Nat.add_assoc, Nat.add_comm 1] at hrest

/-- A list that begins with the name of an operator applies it if it has enough arguments. -/
theorem evalList_call {node : Node} {name : String} {entry : FormEntry}
    (hhead : node.head? = some name) (hentry : Form.lookup? name = some entry) (o : Operand)
    (operands : List Operand) :
    Node.evalList node .plain (o :: operands) =
      if entry.arity.accepts operands.length then entry.form.apply node operands
      else Eval.fail node (.argumentCount name entry.arity operands.length) := by
  simp only [Node.evalList, hhead, Node.call, hentry]

end AllocScript
