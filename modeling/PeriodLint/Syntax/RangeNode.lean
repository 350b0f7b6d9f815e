import PeriodLint.RangeExpr
import PeriodLint.Syntax.Span

/-!
# Ranges in syntax trees

The view of a range node that its replacement is decided on. Comments may stand
anywhere between the parts of a range and are passed over.
-/

namespace PeriodLint

namespace Node

/-- The operator of a range, which may exclude its last value. -/
def isRangeOperator (n : Node) : Bool := n.kind == ".." || n.kind == "..."

/-- The operator of a range node. -/
def rangeOperator? (n : Node) : Option String := (n.children.find? isRangeOperator).map (·.kind)

/-- The nodes right before and right after the first operator of a list, where `prior` is the node
before the list. -/
def aroundOperator (prior : Option Node) : List Node → Option Node × Option Node
  | [] => (none, none)
  | n :: ns => if n.isRangeOperator then (prior, ns.head?) else aroundOperator (some n) ns

/-- The endpoints of a range node, each missing where the range is open. -/
def endpoints (n : Node) : Option Node × Option Node :=
  aroundOperator none (n.children.filter (!·.isComment))

/-- The operators of plain method calls. The safe-navigation operator is none of them. -/
def isSendOperator (n : Node) : Bool := n.kind == "." || n.kind == "::"

/-- Whether every token between the receiver and the method is the operator of a plain call. -/
def sendsPlainly (n receiver method : Node) : Bool :=
  n.children.all fun c =>
    c.named || c.start < receiver.stop || method.start ≤ c.start || c.isSendOperator

/-- The kinds of node that name a method. -/
def isMethodName (n : Node) : Bool := n.kind == "identifier" || n.kind == "constant"

/-- The texts of the arguments that a call passes. -/
def argumentTexts (source : Bytes) (n : Node) : List String :=
  match n.child? "arguments" with
  | none => []
  | some args => (args.children.filter fun a => a.named && !a.isComment).map (text source)

/-- The receiver and the method of a plain call without a block. -/
def plainCall? (n : Node) : Option (Node × Node) := do
  guard (n.kind == "call" && (n.child? "block").isNone)
  let receiver ← n.child? "receiver"
  let method ← n.child? "method"
  guard (method.isMethodName && n.sendsPlainly receiver method)
  some (receiver, method)

/-- The view of one endpoint. -/
def endpoint (source : Bytes) (n : Node) : Endpoint :=
  match n.plainCall? with
  | none => Endpoint.other
  | some (receiver, method) =>
      { receiver := some (receiver.text source)
        method := some (method.text source)
        args := n.argumentTexts source }

/-- The view of a range node. -/
def rangeExpr (source : Bytes) (n : Node) : RangeExpr where
  first := n.endpoints.1.map (endpoint source)
  last := n.endpoints.2.map (endpoint source)

end Node

end PeriodLint
