import KiloProxy.Run.System
import Mathlib.Logic.Function.Basic
import Mathlib.Order.Compare
import Mathlib.Order.Lattice

/-!
# `BAVL.h`

A search tree of nodes that point to each other: a node has its parent, its two children and
its balance, which is how much higher the right subtree is. Nodes are addresses, and `none` is
the null pointer; the value of a node is where it is not changed. A result of `none` is a failed
assertion, a null pointer that is followed, or a loop that did not end in its fuel.
-/

namespace KiloProxy.Engine
set_option autoImplicit false
open KiloProxy.Run

/-- The root, and the fields of all nodes. -/
structure BAVL where
  root : Option Nat
  parent : Nat → Option Nat
  link : Nat → Bool → Option Nat
  balance : Nat → Int

namespace BAVL

/-- `BAVL_OPTNEG`. -/
def optneg (a : Int) (neg : Bool) : Int := if neg then -a else a

/-! ## Writes -/

def setParent (o : BAVL) (n : Nat) (parent : Option Nat) : BAVL :=
  { o with parent := Function.update o.parent n parent }

def setLink (o : BAVL) (n : Nat) (side : Bool) (child : Option Nat) : BAVL :=
  { o with link := Function.update o.link n (Function.update (o.link n) side child) }

def setBalance (o : BAVL) (n : Nat) (balance : Int) : BAVL :=
  { o with balance := Function.update o.balance n balance }

/-- The parent of a node that is there. -/
def adopt (o : BAVL) (child : Option Nat) (parent : Nat) : BAVL :=
  match child with
  | some c => o.setParent c (some parent)
  | none => o

/-- The link that a parent, or the tree, has to `old`. -/
def setChild (o : BAVL) (parent : Option Nat) (old : Nat) (new : Option Nat) : BAVL :=
  match parent with
  | some p => o.setLink p (o.link p true = some old) new
  | none => { o with root := new }

/-! ## Balance -/

/-- What `_BAVL_rotate` writes. -/
def rotated (o : BAVL) (r nr : Nat) (dir : Bool) : BAVL :=
  let o := o.setLink r (!dir) (o.link nr dir)
  let o := o.adopt (o.link r !dir) r
  let o := o.setLink nr dir (some r)
  let o := o.setParent nr (o.parent r)
  let o := o.setChild (o.parent nr) r (some nr)
  o.setParent r (some nr)

def rotate (o : BAVL) (r : Nat) (dir : Bool) : Option BAVL := (o.link r !dir).map fun nr => o.rotated r nr dir

/-- The switch of `_BAVL_rebalance` over the balance of the child on the side that is too high: the node that is now
at the place, and by how much the height changed. -/
def transformChild (o : BAVL) (node : Nat) (bside : Bool) (child : Nat) (delta : Int) : Option (BAVL × Nat × Int) :=
  let bsidef : Int := if bside then 1 else -1
  if o.balance child * bsidef = 1 then
    (o.rotate node !bside).map fun o => ((o.setBalance node 0).setBalance child 0, child, delta - 1)
  else if o.balance child * bsidef = 0 then
    (o.rotate node !bside).map fun o => ((o.setBalance node (1 * bsidef)).setBalance child (-1 * bsidef), child, delta)
  else if o.balance child * bsidef = -1 then
    (o.link child !bside).bind fun gchild => (o.rotate child bside).bind fun o => (o.rotate node !bside).map fun o =>
      let o := o.setBalance node (-max 0 (o.balance gchild * bsidef) * bsidef)
      let o := o.setBalance child (max 0 (-o.balance gchild * bsidef) * bsidef)
      (o.setBalance gchild 0, gchild, delta - 1)
  else none

/-- The transformations, when the balance of a node is wrong. -/
def transform (o : BAVL) (node : Nat) (delta : Int) : Option (BAVL × Nat × Int) :=
  if o.balance node = 2 then (o.link node true).bind fun child => o.transformChild node true child delta
  else if o.balance node = -2 then (o.link node false).bind fun child => o.transformChild node false child delta
  else some (o, node, delta)

/-- A subtree of `node` changed its height by `deltac`. -/
def rebalance : Nat → BAVL → Nat → Bool → Int → Option BAVL
  | 0, _, _, _, _ => none
  | fuel + 1, o, node, side, deltac =>
    if ¬ (-1 ≤ deltac ∧ deltac ≤ 1) ∨ ¬ (-1 ≤ o.balance node ∧ o.balance node ≤ 1) then none
    else if deltac = 0 then some o
    else
      let delta := max deltac (optneg (o.balance node) side) - max 0 (optneg (o.balance node) side)
      if ¬ (-1 ≤ delta ∧ delta ≤ 1) then none
      else
        (transform (o.setBalance node (o.balance node - optneg deltac side)) node delta).bind fun (o, node, delta) =>
          if ¬ (-1 ≤ delta ∧ delta ≤ 1) then none
          else
            match o.parent node with
            | some parent => rebalance fuel o parent (o.link parent true = some node) delta
            | none => some o

/-! ## Changes -/

section Values

variable {α : Type} [LinearOrder α] (value : Nat → α)

/-- The way down to a value: the node that compares equal, or the node below which it is not and the side. -/
def findPlace (o : BAVL) (v : α) : Nat → Nat → Option (Except Nat (Nat × Bool))
  | 0, _ => none
  | fuel + 1, c =>
    if v = value c then some (.error c)
    else
      let side : Bool := value c < v
      match o.link c side with
      | none => some (.ok (c, side))
      | some c => findPlace o v fuel c

/-- A node without children. -/
def initNode (o : BAVL) (node : Nat) (parent : Option Nat) : BAVL :=
  (((o.setParent node parent).setLink node false none).setLink node true none).setBalance node 0

/-- Was the node inserted? With `ref`. -/
def insert (fuel : Nat) (o : BAVL) (node : Nat) : Option (Bool × Option Nat × BAVL) :=
  match o.root with
  | none => some (true, none, initNode { o with root := some node } node none)
  | some c =>
    (findPlace value o (value node) fuel c).bind fun place =>
      match place with
      | .error c => some (false, some c, o)
      | .ok (c, side) =>
        (rebalance fuel ((o.setLink c side (some node)).initNode node (some c)) c side 1).map fun o => (true, some c, o)

end Values

/-- Down the links of one side. -/
def descend (side : Bool) (o : BAVL) : Nat → Nat → Option Nat
  | 0, _ => none
  | fuel + 1, n =>
    match o.link n side with
    | some m => descend side o fuel m
    | none => some n

def subtreeMax (o : BAVL) (fuel n : Nat) : Option Nat := descend true o fuel n

def replaceSubtree (o : BAVL) (dest : Nat) (n : Option Nat) : BAVL :=
  let o := o.setChild (o.parent dest) dest n
  match n with
  | some n => o.setParent n (o.parent dest)
  | none => o

/-- `n1` is right above `n2`. -/
def swapConnected (o : BAVL) (n1 n2 : Nat) : BAVL :=
  let side : Bool := o.link n1 true = some n2
  let c := o.link n1 !side
  let o := o.setLink n1 false (o.link n2 false)
  let o := o.adopt (o.link n1 false) n1
  let o := o.setLink n1 true (o.link n2 true)
  let o := o.adopt (o.link n1 true) n1
  let o := o.setParent n2 (o.parent n1)
  let o := o.setChild (o.parent n2) n1 (some n2)
  let o := o.setLink n2 side (some n1)
  let o := o.setParent n1 (some n2)
  let o := o.setLink n2 (!side) c
  o.adopt c n2

def swapApart (o : BAVL) (n1 n2 : Nat) : BAVL :=
  let temp := o.parent n1
  let o := o.setParent n1 (o.parent n2)
  let o := o.setChild (o.parent n1) n2 (some n1)
  let o := o.setParent n2 temp
  let o := o.setChild temp n1 (some n2)
  let temp := o.link n1 false
  let o := o.setLink n1 false (o.link n2 false)
  let o := o.adopt (o.link n1 false) n1
  let o := o.setLink n2 false temp
  let o := o.adopt temp n2
  let temp := o.link n1 true
  let o := o.setLink n1 true (o.link n2 true)
  let o := o.adopt (o.link n1 true) n1
  let o := o.setLink n2 true temp
  o.adopt temp n2

def swapNodes (o : BAVL) (n1 n2 : Nat) : BAVL :=
  let o :=
    if o.parent n2 = some n1 then o.swapConnected n1 n2
    else if o.parent n1 = some n2 then o.swapConnected n2 n1
    else o.swapApart n1 n2
  let b := o.balance n1
  (o.setBalance n1 (o.balance n2)).setBalance n2 b

/-- A node with one subtree at most is taken out. -/
def takeOut (fuel : Nat) (o : BAVL) (node : Nat) : Option BAVL :=
  match o.link node false, o.link node true with
  | some _, some _ => none
  | left, right =>
    let child := left.or right
    match o.parent node with
    | some parent =>
      let side : Bool := o.link parent true = some node
      rebalance fuel (o.replaceSubtree node child) parent side (-1)
    | none => some (o.replaceSubtree node child)

/-- With two subtrees, the node is swapped with the greatest of the left one first. -/
def remove (fuel : Nat) (o : BAVL) (node : Nat) : Option BAVL :=
  (match o.link node false, o.link node true with
    | some left, some _ => (o.subtreeMax fuel left).map fun max => o.swapNodes node max
    | _, _ => some o).bind fun o => o.takeOut fuel node

/-! ## Reads -/

def isEmpty (o : BAVL) : Bool := o.root.isNone

section Values

variable {α : Type} [LinearOrder α] (value : Nat → α)

/-- The node that compares equal, or else one next to the place of the value. -/
def lookup (fuel : Nat) (o : BAVL) (v : α) : Option (Option Nat) :=
  match o.root with
  | none => some none
  | some c =>
    (findPlace value o v fuel c).map fun place =>
      match place with
      | .error c => some c
      | .ok (c, _) => some c

def lookupExact (fuel : Nat) (o : BAVL) (v : α) : Option (Option Nat) :=
  match o.root with
  | none => some none
  | some c =>
    (findPlace value o v fuel c).map fun place =>
      match place with
      | .error c => some c
      | .ok _ => none

end Values

/-- The loop of `BAVL_GetFirst` and `BAVL_GetLast`. -/
def outermost (side : Bool) (fuel : Nat) (o : BAVL) : Option (Option Nat) :=
  match o.root with
  | none => some none
  | some n => (descend side o fuel n).map some

def getFirst : Nat → BAVL → Option (Option Nat) := outermost false

def getLast : Nat → BAVL → Option (Option Nat) := outermost true

/-- Up as long as the node is the child of its parent on this side, and then once more. -/
def climb (side : Bool) (o : BAVL) : Nat → Nat → Option (Option Nat)
  | 0, _ => none
  | fuel + 1, n =>
    match o.parent n with
    | none => some none
    | some p => if o.link p side = some n then climb side o fuel p else some (some p)

/-- The node next to one on a side. -/
def neighbour (side : Bool) (fuel : Nat) (o : BAVL) (n : Nat) : Option (Option Nat) :=
  match o.link n side with
  | some n => (descend (!side) o fuel n).map some
  | none => climb side o fuel n

def getNext : Nat → BAVL → Nat → Option (Option Nat) := neighbour true

def getPrev : Nat → BAVL → Nat → Option (Option Nat) := neighbour false

section Values

variable {α : Type} [LinearOrder α] (value : Nat → α)

/-- The checks of a child, and the height of its subtree. -/
def assertChild (o : BAVL) (recurse : Nat → Option Nat) (n : Nat) (side : Bool) : Option Nat :=
  match o.link n side with
  | none => some 0
  | some c =>
    if o.parent c = some n ∧ (if side then value n < value c else value c < value n) then recurse c else none

/-- `_BAVL_assert_recurser`: the height of the subtree. -/
def assertRecurser (o : BAVL) : Nat → Nat → Option Nat
  | 0, _ => none
  | fuel + 1, n =>
    if ¬ (-1 ≤ o.balance n ∧ o.balance n ≤ 1) then none
    else
      (assertChild value o (assertRecurser o fuel) n false).bind fun left =>
        (assertChild value o (assertRecurser o fuel) n true).bind fun right =>
          if o.balance n = (right : Int) - left then some (max left right + 1) else none

/-- Does the tree pass `BAVL_Verify`? -/
def verify (fuel : Nat) (o : BAVL) : Bool :=
  match o.root with
  | none => true
  | some n => o.parent n = none ∧ (assertRecurser value o fuel n).isSome

end Values

/-! ## Runs -/

/-- A tree, and the nodes that were inserted and not removed since, which are no part of the program. -/
structure Filled where
  tree : BAVL
  nodes : List Nat

inductive Call where
  | insert (node : Nat)
  | remove (node : Nat)
deriving DecidableEq

/-- A node is inserted when it is not in the tree, and removed when it is. -/
def Filled.Calls (s : Filled) : Call → Prop
  | .insert node => node ∉ s.nodes
  | .remove node => node ∈ s.nodes

instance (s : Filled) (a : Call) : Decidable (s.Calls a) := by
  unfold Filled.Calls
  split <;> infer_instance

/-- As many steps as a loop may take. -/
def Filled.size (s : Filled) : Nat := s.nodes.length + 1

section Values

variable {α : Type} [LinearOrder α] (value : Nat → α)

def Filled.handle (s : Filled) : Call → Option Filled
  | .insert node =>
    (s.tree.insert value s.size node).map fun (inserted, _, tree) =>
      ⟨tree, if inserted then s.nodes ++ [node] else s.nodes⟩
  | .remove node => (s.tree.remove s.size node).map fun tree => ⟨tree, s.nodes.erase node⟩

/-- `BAVL_Init` leaves the fields of the nodes as they are. -/
def system : System Filled Call where
  init s := s.tree.root = none ∧ s.nodes = []
  step s a := if s.Calls a then s.handle value a else none

end Values

end BAVL
end KiloProxy.Engine
