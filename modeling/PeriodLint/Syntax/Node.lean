/-!
# Syntax trees

A node covers a stretch of the bytes of its source and holds its children in
source order. Tokens without a name of their own, such as operators and
brackets, are nodes too. The walk below keeps the nodes still to be visited on
a stack; the recursive order beside it is the order that the walk follows.
-/

namespace PeriodLint

/-- A node of a syntax tree. `start` and `stop` are byte offsets, and `field` is the role that the
node plays for its parent. -/
structure Node where
  kind : String
  start : Nat
  stop : Nat
  named : Bool := true
  field : Option String := none
  missing : Bool := false
  children : List Node := []
  deriving Inhabited, Repr

namespace Node

mutual

/-- The number of nodes of a tree. -/
def size : Node → Nat
  | ⟨_, _, _, _, _, _, children⟩ => 1 + sizeAll children

/-- The number of nodes of several trees. -/
def sizeAll : List Node → Nat
  | [] => 0
  | n :: ns => n.size + sizeAll ns

end

mutual

/-- A node before its children, and each child with its whole tree before the next. -/
def preorder : Node → List Node
  | ⟨kind, start, stop, named, field, missing, children⟩ =>
      ⟨kind, start, stop, named, field, missing, children⟩ :: preorderAll children

/-- The nodes of several trees, tree after tree. -/
def preorderAll : List Node → List Node
  | [] => []
  | n :: ns => n.preorder ++ preorderAll ns

end

theorem size_eq (n : Node) : n.size = 1 + sizeAll n.children := by
  cases n
  rw [size]

theorem sizeAll_append (xs ys : List Node) : sizeAll (xs ++ ys) = sizeAll xs + sizeAll ys := by
  induction xs with
  | nil => simp [sizeAll]
  | cons x xs ih => simp [sizeAll, ih, Nat.add_assoc]

/-- The nodes that a stack of trees still holds: the top is visited and its children take its
place. -/
def visit : List Node → List Node
  | [] => []
  | n :: stack => n :: visit (n.children ++ stack)
termination_by stack => sizeAll stack
decreasing_by
  simp only [sizeAll_append, sizeAll, size_eq]
  omega

/-- All nodes of a tree, visited with a stack. -/
def walk (n : Node) : List Node := visit [n]

/-- The nodes of one kind, in source order and outer before inner. -/
def ofKind (n : Node) (kind : String) : List Node := n.walk.filter (·.kind == kind)

/-- A node that marks a place where the source is no program. -/
def isFault (n : Node) : Bool := n.kind == "ERROR" || n.missing

/-- Whether any place of the source is no program. -/
def hasError (n : Node) : Bool := n.walk.any isFault

/-- A remark of the author, which the program does not depend on. -/
def isComment (n : Node) : Bool := n.kind == "comment"

/-- The first child that plays a role. -/
def child? (n : Node) (field : String) : Option Node :=
  n.children.find? fun c => c.field == some field

end Node

end PeriodLint
