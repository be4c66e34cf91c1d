import Mathlib.Data.Nat.Fib.Basic
import Mathlib.Data.Tree.Basic

/-!
# Trees that are balanced in height

A tree, its nodes in order, and a place in it: the subtree there and the way down to it. A
node is written with the subtree of a side first, so that what is done on one side is done on
the other. Rotations keep the order; a tree whose subtrees differ in height by one at most has
as many nodes as a Fibonacci number of its height.
-/

namespace KiloProxy.Store
set_option autoImplicit false

variable {α : Type}

/-! ## Order -/

def inorder : BinaryTree α → List α
  | .nil => []
  | .node a l r => inorder l ++ a :: inorder r

def top : BinaryTree α → Option α
  | .nil => none
  | .node a _ _ => some a

theorem top_mem {t : BinaryTree α} {a : α} (h : top t = some a) : a ∈ inorder t := by
  cases t with
  | nil => cases h
  | node b l r =>
    obtain rfl := Option.some.inj h
    exact List.mem_append_right _ List.mem_cons_self

theorem top_none {t : BinaryTree α} (h : top t = none) : t = .nil := by
  cases t with
  | nil => rfl
  | node _ _ _ => cases h

/-- A node, its subtree on a side and the one on the other; `true` is the right side. -/
def nodeAt (side : Bool) (a : α) (s t : BinaryTree α) : BinaryTree α := if side then .node a t s else .node a s t

theorem nodeAt_not (side : Bool) (a : α) (s t : BinaryTree α) : nodeAt (!side) a s t = nodeAt side a t s := by
  cases side <;> rfl

/-- Seen from either side, a tree with a root is a node. -/
theorem nodeAt_cases (side : Bool) {t : BinaryTree α} {a : α} (h : top t = some a) : ∃ s u, t = nodeAt side a s u := by
  cases t with
  | nil => cases h
  | node b l r =>
    obtain rfl := Option.some.inj h
    cases side with
    | false => exact ⟨l, r, rfl⟩
    | true => exact ⟨r, l, rfl⟩

theorem top_nodeAt (side : Bool) (a : α) (s t : BinaryTree α) : top (nodeAt side a s t) = some a := by
  cases side <;> rfl

theorem height_nodeAt (side : Bool) (a : α) (s t : BinaryTree α) :
    (nodeAt side a s t).height = max s.height t.height + 1 := by
  cases side with
  | false => rfl
  | true => exact congrArg (· + 1) (Nat.max_comm _ _)

/-- A node and its subtrees hold the same elements from either side. -/
theorem inorder_nodeAt_perm (side : Bool) (a : α) (s t : BinaryTree α) :
    (inorder (nodeAt side a s t)).Perm (a :: (inorder s ++ inorder t)) := by
  cases side with
  | false => exact List.perm_middle
  | true => exact List.perm_middle.trans (List.Perm.cons a List.perm_append_comm)

theorem mem_nodeAt {side : Bool} {a b : α} {s t : BinaryTree α} :
    b ∈ inorder (nodeAt side a s t) ↔ b = a ∨ b ∈ inorder s ∨ b ∈ inorder t := by
  rw [(inorder_nodeAt_perm side a s t).mem_iff, List.mem_cons, List.mem_append]

theorem nodup_nodeAt {side : Bool} {a : α} {s t : BinaryTree α} :
    (inorder (nodeAt side a s t)).Nodup ↔
      (a ∉ inorder s ∧ a ∉ inorder t) ∧ (inorder s).Nodup ∧ (inorder t).Nodup ∧ ∀ b ∈ inorder s, b ∉ inorder t := by
  rw [(inorder_nodeAt_perm side a s t).nodup_iff, List.nodup_cons, List.mem_append, not_or, List.nodup_append']
  rfl

/-- A path is no longer than the tree has nodes. -/
theorem height_le_length (t : BinaryTree α) : t.height ≤ (inorder t).length := by
  induction t with
  | nil => exact Nat.le_refl 0
  | node a l r ihl ihr =>
    rw [BinaryTree.height, inorder, List.length_append, List.length_cons]
    omega

/-- **A rotation keeps the order.** -/
theorem inorder_rotated (side : Bool) (a b : α) (outer inner rest : BinaryTree α) :
    inorder (nodeAt side b outer (nodeAt side a inner rest)) = inorder (nodeAt side a (nodeAt side b outer inner) rest) := by
  cases side <;> simp [nodeAt, inorder]

/-- The last of a list, or the first. -/
def edge (side : Bool) (l : List α) : Option α := if side then l.getLast? else l.head?

theorem edge_mem {side : Bool} {l : List α} {a : α} (h : edge side l = some a) : a ∈ l := by
  cases side with
  | false => exact List.mem_of_mem_head? h
  | true => exact List.mem_of_getLast? h

/-- With nothing on a side the node is the edge itself. -/
theorem edge_nodeAt_nil (side : Bool) (a : α) (t : BinaryTree α) : edge side (inorder (nodeAt side a .nil t)) = some a := by
  cases side with
  | false => rfl
  | true => exact List.getLast?_concat

/-- With a subtree on a side the edge lies in it. -/
theorem edge_nodeAt (side : Bool) (a b : α) {s : BinaryTree α} (t : BinaryTree α) (h : edge side (inorder s) = some b) :
    edge side (inorder (nodeAt side a s t)) = some b := by
  cases side with
  | false => exact (List.head?_append_of_ne_nil _ (List.ne_nil_of_mem (edge_mem h))).trans h
  | true =>
    have hne : inorder s ≠ [] := List.ne_nil_of_mem (edge_mem h)
    change (inorder t ++ a :: inorder s).getLast? = some b
    rw [List.getLast?_append_of_ne_nil _ (List.cons_ne_nil _ _), List.getLast?_cons_of_ne_nil hne]
    exact h

/-! ## Places -/

/-- A step down: the side taken, the node it leaves and the subtree on the other side. -/
structure Turn (α : Type) where
  side : Bool
  node : α
  other : BinaryTree α

/-- The way down to a subtree, the last step first. -/
abbrev Path (α : Type) := List (Turn α)

/-- The tree with this subtree at the place. -/
def plug : Path α → BinaryTree α → BinaryTree α
  | [], t => t
  | d :: p, t => plug p (nodeAt d.side d.node t d.other)

/-- The nodes on the left of the place. -/
def before : Path α → List α
  | [] => []
  | d :: p => before p ++ if d.side then inorder d.other ++ [d.node] else []

/-- The nodes on the right of the place. -/
def after : Path α → List α
  | [] => []
  | d :: p => (if d.side then [] else d.node :: inorder d.other) ++ after p

/-- A path surrounds the order of its subtree. -/
theorem inorder_plug (p : Path α) (t : BinaryTree α) : inorder (plug p t) = before p ++ (inorder t ++ after p) := by
  induction p generalizing t with
  | nil => exact (List.append_nil _).symm
  | cons d p ih =>
    rw [plug, ih]
    obtain ⟨side, a, other⟩ := d
    cases side <;> simp [nodeAt, inorder, before, after]

/-- Every element is reached by a path. -/
theorem exists_plug {a : α} {t : BinaryTree α} (h : a ∈ inorder t) : ∃ p l r, t = plug p (.node a l r) := by
  suffices ∀ q : Path α, ∃ p l r, plug q t = plug p (.node a l r) from this []
  induction t with
  | nil => cases h
  | node b l r ihl ihr =>
    intro q
    rcases List.mem_append.mp h with hl | hr
    · exact ihl hl (⟨false, b, r⟩ :: q)
    · rcases List.mem_cons.mp hr with rfl | hr
      · exact ⟨q, l, r, rfl⟩
      · exact ihr hr (⟨true, b, l⟩ :: q)

/-- All nodes off the place. -/
def around : Path α → List α
  | [] => []
  | d :: p => d.node :: (inorder d.other ++ around p)

/-- The tree is the subtree and what lies around it. -/
theorem around_perm (p : Path α) (t : BinaryTree α) : (inorder (plug p t)).Perm (inorder t ++ around p) := by
  induction p generalizing t with
  | nil => rw [around, List.append_nil]; rfl
  | cons d p ih =>
    refine (ih _).trans (((inorder_nodeAt_perm d.side d.node t d.other).append_right _).trans ?_)
    rw [around, List.cons_append, List.append_assoc]
    exact List.perm_middle.symm

theorem length_le_around (p : Path α) : p.length ≤ (around p).length := by
  induction p with
  | nil => exact Nat.le_refl 0
  | cons d p ih =>
    rw [around, List.length_cons, List.length_cons, List.length_append]
    omega

/-- The node that the last step left. -/
def parentOf (p : Path α) : Option α := p.head?.map Turn.node

/-! ## Balance -/

/-- How much higher the right subtree is, of the subtrees on a side and on the other. -/
def tilt (side : Bool) (s t : Nat) : Int := if side then (s : Int) - t else (t : Int) - s

theorem tilt_self (side : Bool) (s : Nat) : tilt side s s = 0 := by
  cases side <;> exact Int.sub_self _

theorem tilt_not (side : Bool) (s t : Nat) : tilt (!side) s t = tilt side t s := by cases side <;> rfl

/-- The tilt to a side, taken with the sign of the side, is the difference of the heights. -/
theorem tilt_signed (side : Bool) (s t : Nat) : tilt side s t * (if side then 1 else -1) = (s : Int) - t := by
  cases side with
  | false => exact (Int.mul_neg_one _).trans (Int.neg_sub _ _)
  | true => exact Int.mul_one _

theorem tilt_eq_signed (side : Bool) (s t : Nat) : tilt side s t = ((s : Int) - t) * (if side then 1 else -1) := by
  cases side with
  | false => exact ((Int.mul_neg_one _).trans (Int.neg_sub _ _)).symm
  | true => exact (Int.mul_one _).symm

def Avl : BinaryTree α → Prop
  | .nil => True
  | .node _ l r => (l.height ≤ r.height + 1 ∧ r.height ≤ l.height + 1) ∧ Avl l ∧ Avl r

/-- What is asked of a node is symmetric in its sides. -/
theorem avl_nodeAt {side : Bool} {a : α} {s t : BinaryTree α} :
    Avl (nodeAt side a s t) ↔ (s.height ≤ t.height + 1 ∧ t.height ≤ s.height + 1) ∧ Avl s ∧ Avl t := by
  cases side with
  | false => exact Iff.rfl
  | true => exact ⟨fun ⟨⟨h₁, h₂⟩, h₃, h₄⟩ => ⟨⟨h₂, h₁⟩, h₄, h₃⟩, fun ⟨⟨h₁, h₂⟩, h₃, h₄⟩ => ⟨⟨h₂, h₁⟩, h₄, h₃⟩⟩

/-- The tree is balanced off the place, where a subtree of some height is. -/
def AvlAround : Path α → Nat → Prop
  | [], _ => True
  | d :: p, h =>
    (h ≤ d.other.height + 1 ∧ d.other.height ≤ h + 1) ∧ Avl d.other ∧ AvlAround p (max h d.other.height + 1)

/-- **A balanced tree is low**: with fewer nodes than this there is no balanced tree of its height. -/
theorem Avl.fib_height {t : BinaryTree α} (h : Avl t) : Nat.fib (t.height + 2) ≤ (inorder t).length + 1 := by
  induction t with
  | nil => exact Nat.le_of_eq Nat.fib_two
  | node a l r ihl ihr =>
    obtain ⟨⟨hl, hr⟩, havl, havr⟩ := h
    have hleft := ihl havl
    have hright := ihr havr
    have hlength : (inorder (.node a l r)).length = (inorder l).length + (inorder r).length + 1 := by
      rw [inorder, List.length_append, List.length_cons]
      omega
    rw [hlength, BinaryTree.height]
    -- one subtree is one lower than the tree, the other two lower at most
    rcases Nat.le_total l.height r.height with hle | hle
    · have hlow : Nat.fib (r.height + 1) ≤ Nat.fib (l.height + 2) := Nat.fib_mono (by omega)
      have hsum : Nat.fib (r.height + 1 + 2) = Nat.fib (r.height + 1) + Nat.fib (r.height + 2) := Nat.fib_add_two
      rw [Nat.max_eq_right hle]
      omega
    · have hlow : Nat.fib (l.height + 1) ≤ Nat.fib (r.height + 2) := Nat.fib_mono (by omega)
      have hsum : Nat.fib (l.height + 1 + 2) = Nat.fib (l.height + 1) + Nat.fib (l.height + 2) := Nat.fib_add_two
      rw [Nat.max_eq_left hle]
      omega

end KiloProxy.Store
