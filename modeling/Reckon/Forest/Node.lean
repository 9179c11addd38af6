import Reckon.Text.Position

/-!
Nodes of a parse: trees whose root names the rule that built it, the range it covers in characters
and in bytes, and what it means.
-/

set_option autoImplicit false

namespace Reckon

inductive Node (α : Type) where
  | mk (rule : String) (chars bytes : Span) (value : α) (children : List (Node α))
deriving Repr

namespace Node

variable {α : Type}

def rule : Node α → String
  | mk rule _ _ _ _ => rule

def chars : Node α → Span
  | mk _ chars _ _ _ => chars

def bytes : Node α → Span
  | mk _ _ bytes _ _ => bytes

def value : Node α → α
  | mk _ _ _ value _ => value

def children : Node α → List (Node α)
  | mk _ _ _ _ children => children

mutual

def height : Node α → Nat
  | mk _ _ _ _ children => 1 + tallest children

def tallest : List (Node α) → Nat
  | [] => 0
  | node :: rest => max node.height (tallest rest)

end

mutual

def size : Node α → Nat
  | mk _ _ _ _ children => 1 + totalSize children

def totalSize : List (Node α) → Nat
  | [] => 0
  | node :: rest => node.size + totalSize rest

end

mutual

def subtree : Node α → List (Node α)
  | mk rule chars bytes value children => mk rule chars bytes value children :: subtrees children

def subtrees : List (Node α) → List (Node α)
  | [] => []
  | node :: rest => node.subtree ++ subtrees rest

end

theorem height_pos (node : Node α) : 0 < node.height := by
  cases node with
  | mk rule chars bytes value children =>
    rw [height]
    omega

end Node

end Reckon
