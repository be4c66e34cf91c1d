import KiloProxy.Engine.Bavl
import KiloProxy.Store.AvlTree

/-!
# The tree that the nodes of `BAVL.h` make

The fields of the nodes, read as a tree. A part of the tree is held on its own: a subtree by the
fields of its nodes, and what is off a place by the fields of the others. So a write to one node
leaves the parts that it is not in, and each function is given the parts it needs and returns them
in their new places.
-/

namespace KiloProxy.Engine.BAVL
set_option autoImplicit false
open KiloProxy.Store

variable {o o' : BAVL} {a b n : Nat} {up child : Option Nat} {side : Bool} {s t u : BinaryTree Nat} {p : Path Nat}

/-! ## Fields -/

section Fields

variable {c old : Nat} {right : Bool} {x : Int}

@[simp] theorem setParent_root : (o.setParent n up).root = o.root := rfl
@[simp] theorem setParent_link : (o.setParent n up).link = o.link := rfl
@[simp] theorem setParent_balance : (o.setParent n up).balance = o.balance := rfl
@[simp] theorem setLink_root : (o.setLink n side child).root = o.root := rfl
@[simp] theorem setLink_parent : (o.setLink n side child).parent = o.parent := rfl
@[simp] theorem setLink_balance : (o.setLink n side child).balance = o.balance := rfl
@[simp] theorem setBalance_root : (o.setBalance n x).root = o.root := rfl
@[simp] theorem setBalance_parent : (o.setBalance n x).parent = o.parent := rfl
@[simp] theorem setBalance_link : (o.setBalance n x).link = o.link := rfl
@[simp] theorem adopt_root : (o.adopt child n).root = o.root := by cases child <;> rfl
@[simp] theorem adopt_link : (o.adopt child n).link = o.link := by cases child <;> rfl
@[simp] theorem adopt_balance : (o.adopt child n).balance = o.balance := by cases child <;> rfl
@[simp] theorem setChild_parent : (o.setChild up old child).parent = o.parent := by cases up <;> rfl
@[simp] theorem setChild_balance : (o.setChild up old child).balance = o.balance := by cases up <;> rfl

@[simp] theorem setParent_parent : (o.setParent n up).parent c = if c = n then up else o.parent c := Function.update_apply _ _ _ _

@[simp] theorem setBalance_balance : (o.setBalance n x).balance c = if c = n then x else o.balance c :=
  Function.update_apply _ _ _ _

/-- A link is set on one side of one node, and every other link stays. -/
@[simp] theorem setLink_link :
    (o.setLink n side child).link c right = if c = n ∧ right = side then child else o.link c right := by
  by_cases h : c = n
  · subst h
    simp [setLink, Function.update_apply]
  · simp [setLink, h]

/-- `adopt` points the child, if there is one, at its new parent. -/
@[simp] theorem adopt_parent : (o.adopt child n).parent c = if child = some c then some n else o.parent c := by
  cases child with
  | none => rfl
  | some b => simp only [adopt, setParent_parent, Option.some.injEq, eq_comm]

/-- Under no parent the tree itself is replaced. -/
@[simp] theorem setChild_root : (o.setChild up old child).root = if up = none then child else o.root := by
  cases up <;> rfl

/-- The parent keeps its new child on the side where the old one hung. -/
@[simp] theorem setChild_link :
    (o.setChild up old child).link c right =
      if up = some c ∧ right = (o.link c true = some old : Bool) then child else o.link c right := by
  cases up with
  | none => rfl
  | some b =>
    rw [setChild, setLink_link]
    grind

end Fields

/-! ## Parts -/

/-- The fields of the nodes make this subtree, the parent of whose root is given. -/
def Shape (o : BAVL) : Option Nat → BinaryTree Nat → Prop
  | _, .nil => True
  | up, .node a l r =>
    (o.parent a = up ∧ o.link a false = top l ∧ o.link a true = top r) ∧ Shape o (some a) l ∧ Shape o (some a) r

/-- The fields of a node with this parent and these subtrees. -/
def Linked (o : BAVL) (up : Option Nat) (side : Bool) (a : Nat) (s t : Option Nat) : Prop :=
  o.parent a = up ∧ o.link a side = s ∧ o.link a (!side) = t

/-- What the memory holds of a node with subtrees: its own fields, and both subtrees below it. -/
theorem shape_nodeAt :
    Shape o up (nodeAt side a s t) ↔ Linked o up side a (top s) (top t) ∧ Shape o (some a) s ∧ Shape o (some a) t := by
  cases side with
  | false => exact Iff.rfl
  | true => exact ⟨fun ⟨⟨h, hl, hr⟩, hs, ht⟩ => ⟨⟨h, hr, hl⟩, ht, hs⟩, fun ⟨⟨h, hr, hl⟩, ht, hs⟩ => ⟨⟨h, hl, hr⟩, hs, ht⟩⟩

/-- The fields of the other nodes make the tree off the place, where the subtree with this root belongs. -/
def ShapeAround (o : BAVL) : Path Nat → Option Nat → Prop
  | [], child => o.root = child
  | d :: p, child =>
    Linked o (parentOf p) d.side d.node child (top d.other) ∧ Shape o (some d.node) d.other ∧ ShapeAround o p (some d.node)

/-- The root of a subtree knows the node above it. -/
theorem Shape.top_parent (h : Shape o up t) (htop : top t = some a) : o.parent a = up := by
  obtain ⟨s, u, rfl⟩ := nodeAt_cases false htop
  exact (shape_nodeAt.mp h).1.1

/-- The fields of these nodes, but for the balance, are the same. -/
def Same (o o' : BAVL) (nodes : List Nat) : Prop :=
  ∀ a ∈ nodes, o'.parent a = o.parent a ∧ ∀ side, o'.link a side = o.link a side

theorem Same.linked {nodes : List Nat} (h : Same o o' nodes) {l r : Option Nat} (ha : a ∈ nodes)
    (hlinked : Linked o up side a l r) : Linked o' up side a l r :=
  ⟨(h a ha).1.trans hlinked.1, ((h a ha).2 side).trans hlinked.2.1, ((h a ha).2 _).trans hlinked.2.2⟩

/-- A subtree is held after any change that leaves its own nodes alone. -/
theorem Shape.frame (h : Shape o up t) (hsame : Same o o' (inorder t)) : Shape o' up t := by
  induction t generalizing up with
  | nil => trivial
  | node a l r ihl ihr =>
    obtain ⟨ha, hl, hr⟩ := h
    refine ⟨hsame.linked (List.mem_append_right _ List.mem_cons_self) ha, ihl hl fun b hb => ?_,
      ihr hr fun b hb => ?_⟩
    · exact hsame b (List.mem_append_left _ hb)
    · exact hsame b (List.mem_append_right _ (List.mem_cons_of_mem _ hb))

/-- What lies around a subtree is held after a change that leaves those nodes and the root alone. -/
theorem ShapeAround.frame (h : ShapeAround o p child) (hsame : Same o o' (around p)) (hroot : o'.root = o.root) :
    ShapeAround o' p child := by
  induction p generalizing child with
  | nil => exact hroot.trans h
  | cons d p ih =>
    obtain ⟨hd, hs, hp⟩ := h
    refine ⟨hsame.linked List.mem_cons_self hd, hs.frame fun b hb => ?_, ih hp fun b hb => ?_⟩
    · exact hsame b (List.mem_cons_of_mem _ (List.mem_append_left _ hb))
    · exact hsame b (List.mem_cons_of_mem _ (List.mem_append_right _ hb))

/-- A subtree is moved below another node by a write to its root. -/
theorem Shape.moved (h : Shape o up t) (honce : (inorder t).Nodup)
    (hsame : ∀ a ∈ inorder t, o'.parent a = (if top t = some a then child else o.parent a) ∧
      ∀ side, o'.link a side = o.link a side) : Shape o' child t := by
  cases t with
  | nil => trivial
  | node a l r =>
    obtain ⟨⟨_, hleft, hright⟩, hl, hr⟩ := h
    have hnodup : (a :: (inorder l ++ inorder r)).Nodup := List.perm_middle.nodup_iff.mp honce
    have hother : ∀ b ∈ inorder l ++ inorder r, o'.parent b = o.parent b ∧ ∀ side, o'.link b side = o.link b side := by
      intro b hb
      obtain ⟨hparent, hlink⟩ := hsame b (List.perm_middle.mem_iff.mpr (List.mem_cons_of_mem _ hb))
      refine ⟨hparent.trans (if_neg fun h => ?_), hlink⟩
      obtain rfl := Option.some.inj h
      exact (List.nodup_cons.mp hnodup).1 hb
    obtain ⟨hparent, hlink⟩ := hsame a (List.mem_append_right _ List.mem_cons_self)
    exact ⟨⟨hparent.trans (if_pos rfl), (hlink _).trans hleft, (hlink _).trans hright⟩,
      hl.frame fun b hb => hother b (List.mem_append_left _ hb), hr.frame fun b hb => hother b (List.mem_append_right _ hb)⟩

/-- The side of a place is that of the link to it, as the link on the other side is to another node. -/
theorem ShapeAround.linkSide {d : Turn Nat} (h : ShapeAround o (d :: p) (some a)) (ha : a ∉ around (d :: p)) :
    decide (o.link d.node true = some a) = d.side := by
  obtain ⟨⟨_, hlink, hother⟩, _⟩ := h
  cases hd : d.side with
  | true => rw [hd] at hlink; exact decide_eq_true hlink
  | false =>
    rw [hd] at hother
    refine decide_eq_false fun h => ha ?_
    exact List.mem_cons_of_mem _ (List.mem_append_left _ (top_mem (hother.symm.trans h)))

/-- The link to the node at the place is written. -/
theorem ShapeAround.relinked (h : ShapeAround o p (some a)) (honce : (around p).Nodup) (ha : a ∉ around p)
    (hroot : o'.root = if parentOf p = none then child else o.root)
    (hsame : ∀ c ∈ around p, o'.parent c = o.parent c ∧ ∀ side, o'.link c side =
      if parentOf p = some c ∧ side = (o.link c true = some a : Bool) then child else o.link c side) :
    ShapeAround o' p child := by
  cases p with
  | nil => exact hroot
  | cons d p =>
    have hside := h.linkSide ha
    obtain ⟨⟨hparent, hlink, hother⟩, hs, hp⟩ := h
    obtain ⟨hnode, _⟩ := List.nodup_cons.mp honce
    have hrest : Same o o' (inorder d.other ++ KiloProxy.Store.around p) := fun c hc => by
      obtain ⟨hparent, hlink⟩ := hsame c (List.mem_cons_of_mem _ hc)
      refine ⟨hparent, fun side => (hlink side).trans (if_neg ?_)⟩
      rintro ⟨h, _⟩
      obtain rfl := Option.some.inj h
      exact hnode hc
    obtain ⟨hparent', hlink'⟩ := hsame d.node List.mem_cons_self
    rw [hside] at hlink'
    refine ⟨⟨hparent'.trans hparent, ?_, ?_⟩, hs.frame fun c hc => hrest c (List.mem_append_left _ hc),
      hp.frame (fun c hc => hrest c (List.mem_append_right _ hc)) hroot⟩
    · exact (hlink' _).trans (if_pos ⟨rfl, rfl⟩)
    · exact ((hlink' _).trans (if_neg fun h => Bool.not_ne_self _ h.2)).trans hother

/-! ## Places -/

/-- The whole tree, as a subtree and what is off its place. -/
structure Rep (o : BAVL) (p : Path Nat) (t : BinaryTree Nat) : Prop where
  outside : ShapeAround o p (top t)
  below : Shape o (parentOf p) t
  once : (inorder (plug p t)).Nodup

/-- The place is moved by a step down, or up. -/
theorem rep_cons {d : Turn Nat} : Rep o (d :: p) s ↔ Rep o p (nodeAt d.side d.node s d.other) := by
  constructor
  · rintro ⟨⟨hlinked, hother, hp⟩, hs, honce⟩
    exact ⟨by rw [top_nodeAt]; exact hp, shape_nodeAt.mpr ⟨hlinked, hs, hother⟩, honce⟩
  · rintro ⟨hp, hbelow, honce⟩
    rw [top_nodeAt] at hp
    obtain ⟨hlinked, hs, hother⟩ := shape_nodeAt.mp hbelow
    exact ⟨⟨hlinked, hother, hp⟩, hs, honce⟩

/-- The node above a subtree lies on the path to it. -/
theorem parentOf_mem (h : parentOf p = some a) : a ∈ around p := by
  cases p with
  | nil => cases h
  | cons d p =>
    obtain rfl := Option.some.inj h
    exact List.mem_cons_self

theorem Rep.nodup (h : Rep o p t) : (inorder t ++ around p).Nodup := (around_perm p t).nodup_iff.mp h.once

/-- A node of the subtree is not met again around it. -/
theorem Rep.apart (h : Rep o p t) (ha : a ∈ inorder t) : a ∉ around p := (List.nodup_append'.mp h.nodup).2.2 ha

/-! ## Rotations -/

section Rotated

variable {c : Nat} {dir right : Bool}

/-- After a rotation the child stands where its parent stood, in the header too. -/
theorem rotated_root (h : o.link b dir ≠ some a) :
    (o.rotated a b dir).root = if o.parent a = none then some b else o.root := by
  simp [rotated, h]

/-- The parents after a rotation: only the two nodes and the subtree between them move. -/
theorem rotated_parent (h : o.link b dir ≠ some a) :
    (o.rotated a b dir).parent c =
      if c = a then some b else if c = b then o.parent a else if o.link b dir = some c then some a else o.parent c := by
  simp [rotated, h]

/-- The links after a rotation, one by one. -/
theorem rotated_link (h : o.link b dir ≠ some a) (ha : o.parent a ≠ some a) (hb : o.parent a ≠ some b) :
    (o.rotated a b dir).link c right =
      if o.parent a = some c ∧ right = (o.link c true = some a : Bool) then some b
      else if c = b ∧ right = dir then some a
      else if c = a ∧ right = !dir then o.link b dir else o.link c right := by
  simp only [rotated, setParent_link, setParent_parent, setLink_parent, setLink_link, adopt_parent, adopt_link, setChild_link]
  grind

end Rotated

/-- **A rotation** puts the child of a node above it, in the same place. -/
theorem Rep.rotate {outer inner rest : BinaryTree Nat} (h : Rep o p (nodeAt side a (nodeAt side b outer inner) rest)) :
    ∃ o', o.rotate a (!side) = some o' ∧ Rep o' p (nodeAt side b outer (nodeAt side a inner rest)) ∧
      o'.balance = o.balance := by
  have hnodup := (((inorder_nodeAt_perm _ _ _ _).trans (((inorder_nodeAt_perm _ _ _ _).append_right _).cons a)).append_right
    (around p)).nodup_iff.mp h.nodup
  obtain ⟨hp, hbelow, honce⟩ := h
  obtain ⟨⟨hparent, hlink, hlinkRest⟩, hb, hrest⟩ := shape_nodeAt.mp hbelow
  obtain ⟨⟨hparentB, hlinkOuter, hlinkInner⟩, houter, hinner⟩ := shape_nodeAt.mp hb
  rw [top_nodeAt] at hp hlink
  have hrotate : o.rotate a (!side) = some (o.rotated a b (!side)) := by rw [BAVL.rotate, Bool.not_not, hlink]; rfl
  simp only [List.cons_append, List.append_assoc, List.nodup_cons, List.nodup_append', List.mem_cons, List.mem_append,
    not_or, List.disjoint_append_right] at hnodup
  obtain ⟨⟨hab, ha⟩, hb, houterOnce, ⟨hinnerOnce, ⟨hrestOnce, haroundOnce, h₁⟩, h₂, h₃⟩, h₄, h₅, h₆⟩ := hnodup
  have htop : ∀ c, top inner = some c → c ∈ inorder inner := fun c => top_mem
  have hup : ∀ c, parentOf p = some c → c ∈ around p := fun c => parentOf_mem
  have hlinked := fun c right => @rotated_link o a b c (!side) right (by grind) (by grind) (by grind)
  have hparents := fun c => @rotated_parent o a b c (!side) (by grind)
  rw [hlinkInner, hparent] at hlinked hparents
  refine ⟨_, hrotate, ⟨?_, ?_, ?_⟩, ?_⟩
  · rw [top_nodeAt]
    refine hp.relinked haroundOnce ha.2.2.2 ?_ fun c hc => ?_
    · rw [rotated_root (by grind), hparent]
    · grind [List.Disjoint]
  · rw [shape_nodeAt, shape_nodeAt]
    refine ⟨⟨?_, ?_, ?_⟩, ?_, ⟨?_, ?_, ?_⟩, ?_, ?_⟩
    · grind
    · grind
    · grind [top_nodeAt]
    · refine houter.frame fun c hc => ?_
      grind [List.Disjoint]
    · grind
    · grind
    · grind
    · refine hinner.moved hinnerOnce fun c hc => ?_
      grind [List.Disjoint]
    · refine hrest.frame fun c hc => ?_
      grind [List.Disjoint]
  · rw [inorder_plug, inorder_rotated, ← inorder_plug]; exact honce
  · simp [rotated]

/-! ## Balance -/

/-- The balance of each node is that of its subtrees. -/
def Balanced (o : BAVL) : BinaryTree Nat → Prop
  | .nil => True
  | .node a l r => o.balance a = tilt false l.height r.height ∧ Balanced o l ∧ Balanced o r

/-- The balance of the nodes off the place, with a subtree of this height at it. -/
def BalancedAround (o : BAVL) : Path Nat → Nat → Prop
  | [], _ => True
  | d :: p, h =>
    o.balance d.node = tilt d.side h d.other.height ∧ Balanced o d.other ∧ BalancedAround o p (max h d.other.height + 1)

/-- The stored balance of a node is the difference of the heights below it. -/
theorem balanced_nodeAt :
    Balanced o (nodeAt side a s t) ↔ o.balance a = tilt side s.height t.height ∧ Balanced o s ∧ Balanced o t := by
  cases side with
  | false => exact Iff.rfl
  | true => exact ⟨fun ⟨h, hl, hr⟩ => ⟨h, hr, hl⟩, fun ⟨h, hr, hl⟩ => ⟨h, hl, hr⟩⟩

/-- Balances stay right as long as the nodes of the subtree keep theirs. -/
theorem Balanced.frame (h : Balanced o t) (hsame : ∀ a ∈ inorder t, o'.balance a = o.balance a) : Balanced o' t := by
  induction t with
  | nil => trivial
  | node a l r ihl ihr =>
    obtain ⟨ha, hl, hr⟩ := h
    refine ⟨(hsame a (List.mem_append_right _ List.mem_cons_self)).trans ha, ihl hl fun b hb => ?_, ihr hr fun b hb => ?_⟩
    · exact hsame b (List.mem_append_left _ hb)
    · exact hsame b (List.mem_append_right _ (List.mem_cons_of_mem _ hb))

theorem BalancedAround.frame {h : Nat} (hp : BalancedAround o p h)
    (hsame : ∀ a ∈ around p, o'.balance a = o.balance a) : BalancedAround o' p h := by
  induction p generalizing h with
  | nil => trivial
  | cons d p ih =>
    obtain ⟨hd, hs, hp⟩ := hp
    refine ⟨(hsame _ List.mem_cons_self).trans hd, hs.frame fun b hb => ?_, ih hp fun b hb => ?_⟩
    · exact hsame b (List.mem_cons_of_mem _ (List.mem_append_left _ hb))
    · exact hsame b (List.mem_cons_of_mem _ (List.mem_append_right _ hb))

/-- A tree with this order and its balance is at the place, and the balance of the other nodes is the same. -/
structure Settled (o o' : BAVL) (p : Path Nat) (t t' : BinaryTree Nat) : Prop where
  rep : Rep o' p t'
  balanced : Balanced o' t'
  avl : Avl t'
  order : inorder t' = inorder t
  others : ∀ c ∉ inorder t, o'.balance c = o.balance c
  height : t'.height ≤ t.height ∧ t.height ≤ t'.height + 1

/-- A change of balances alone keeps the tree that the memory holds. -/
theorem Rep.frame (h : Rep o p t) (hroot : o'.root = o.root) (hparent : o'.parent = o.parent) (hlink : o'.link = o.link) :
    Rep o' p t := by
  have hsame : ∀ l, Same o o' l := fun l c _ => ⟨congrFun hparent c, fun side => congrFun (congrFun hlink c) side⟩
  exact ⟨h.outside.frame (hsame _) hroot, h.below.frame (hsame _), h.once⟩

section Transformations

variable {outer inner light : BinaryTree Nat} {delta x y : Int}

/-- One rotation, and the balance of the two nodes. -/
theorem Rep.single (h : Rep o p (nodeAt side a (nodeAt side b outer inner) light))
    (hbal : Balanced o (nodeAt side a (nodeAt side b outer inner) light)) (hheavy : Avl (nodeAt side b outer inner))
    (hlight : Avl light) (houter : outer.height = light.height + 1)
    (hinner : light.height ≤ inner.height ∧ inner.height ≤ light.height + 1)
    (hx : x = tilt side inner.height light.height) (hy : y = tilt side outer.height (inner.height + 1)) :
    ∃ o₁, o.rotate a (!side) = some o₁ ∧
      Settled o ((o₁.setBalance a x).setBalance b y) p (nodeAt side a (nodeAt side b outer inner) light)
        (nodeAt side b outer (nodeAt side a inner light)) := by
  obtain ⟨o₁, hrotate, hrep, hbalance⟩ := h.rotate
  obtain ⟨_, hbheavy, hblight⟩ := balanced_nodeAt.mp hbal
  obtain ⟨_, hbouter, hbinner⟩ := balanced_nodeAt.mp hbheavy
  obtain ⟨_, havlOuter, havlInner⟩ := avl_nodeAt.mp hheavy
  have hnodup := (List.nodup_append.mp h.nodup).1
  simp only [nodup_nodeAt, mem_nodeAt, not_or] at hnodup
  obtain ⟨⟨⟨hab, haOuter, haInner⟩, haLight⟩, ⟨⟨hbOuter, hbInner⟩, _⟩, _, hdisjoint⟩ := hnodup
  have hbLight : b ∉ inorder light := hdisjoint b (.inl rfl)
  have hsame : ∀ l : List Nat, a ∉ l → b ∉ l → ∀ c ∈ l, ((o₁.setBalance a x).setBalance b y).balance c = o.balance c := by
    intro l ha hb c hc
    rw [setBalance_balance, if_neg (ne_of_mem_of_not_mem hc hb), setBalance_balance,
      if_neg (ne_of_mem_of_not_mem hc ha), hbalance]
  refine ⟨o₁, hrotate, hrep.frame rfl rfl rfl, ?_, ?_, inorder_rotated _ _ _ _ _ _, fun c hc => ?_, ?_⟩
  · rw [balanced_nodeAt, balanced_nodeAt, height_nodeAt, Nat.max_eq_left hinner.1]
    refine ⟨?_, hbouter.frame (hsame _ haOuter hbOuter), ?_, hbinner.frame (hsame _ haInner hbInner),
      hblight.frame (hsame _ haLight hbLight)⟩
    · rw [setBalance_balance, if_pos rfl, hy]
    · rw [setBalance_balance, if_neg hab, setBalance_balance, if_pos rfl, hx]
  · rw [avl_nodeAt, avl_nodeAt, height_nodeAt]
    exact ⟨by omega, havlOuter, by omega, havlInner, hlight⟩
  · simp only [mem_nodeAt, not_or] at hc
    exact hsame [c] (by grind) (by grind) c List.mem_cons_self
  · simp only [height_nodeAt]
    omega

/-- Two rotations, when the inner subtree of the child is the higher one, and the balance of the three nodes. -/
theorem Rep.double {c : Nat} {far near : BinaryTree Nat}
    (h : Rep o p (nodeAt side a (nodeAt side b outer (nodeAt (!side) c far near)) light))
    (hbal : Balanced o (nodeAt side a (nodeAt side b outer (nodeAt (!side) c far near)) light))
    (hheavy : Avl (nodeAt side b outer (nodeAt (!side) c far near))) (hlight : Avl light)
    (houter : outer.height = light.height) (hinner : max far.height near.height = light.height)
    (hx : x = tilt side far.height light.height) (hy : y = tilt side outer.height near.height) :
    ∃ o₁ o₂, o.rotate b side = some o₁ ∧ o₁.rotate a (!side) = some o₂ ∧ o₂.balance = o.balance ∧
      Settled o (((o₂.setBalance a x).setBalance b y).setBalance c 0) p
        (nodeAt side a (nodeAt side b outer (nodeAt (!side) c far near)) light)
        (nodeAt side c (nodeAt side b outer near) (nodeAt side a far light)) := by
  -- the first rotation is one step down
  have hdown : Rep o (⟨side, a, light⟩ :: p) (nodeAt (!side) b (nodeAt (!side) c far near) outer) := by
    rw [rep_cons, nodeAt_not side b]
    exact h
  obtain ⟨o₁, hrotate₁, hrep₁, hbalance₁⟩ := hdown.rotate
  rw [rep_cons, nodeAt_not, nodeAt_not] at hrep₁
  have hupper : inorder (nodeAt side a (nodeAt side c (nodeAt side b outer near) far) light) =
      inorder (nodeAt side a (nodeAt side b outer (nodeAt (!side) c far near)) light) := by
    cases side <;> simp [nodeAt, inorder]
  obtain ⟨o₂, hrotate₂, hrep₂, hbalance₂⟩ := hrep₁.rotate
  rw [Bool.not_not] at hrotate₁
  obtain ⟨_, hbheavy, hblight⟩ := balanced_nodeAt.mp hbal
  obtain ⟨_, hbouter, hbinner⟩ := balanced_nodeAt.mp hbheavy
  obtain ⟨_, hbfar, hbnear⟩ := balanced_nodeAt.mp hbinner
  obtain ⟨_, havlOuter, havlInner⟩ := avl_nodeAt.mp hheavy
  obtain ⟨hclose, havlFar, havlNear⟩ := avl_nodeAt.mp havlInner
  have hnodup := (List.nodup_append.mp hrep₂.nodup).1
  simp only [nodup_nodeAt, mem_nodeAt, not_or] at hnodup
  obtain ⟨⟨⟨hcb, hcOuter, hcNear⟩, hca, hcFar, hcLight⟩, ⟨⟨hbOuter, hbNear⟩, _⟩, ⟨⟨haFar, haLight⟩, _⟩, hdisjoint⟩ := hnodup
  obtain ⟨hba, hbFar, hbLight⟩ := hdisjoint b (.inl rfl)
  have haOuter : a ∉ inorder outer := fun h => (hdisjoint a (.inr (.inl h))).1 rfl
  have haNear : a ∉ inorder near := fun h => (hdisjoint a (.inr (.inr h))).1 rfl
  have hsame : ∀ l : List Nat, a ∉ l → b ∉ l → c ∉ l →
      ∀ e ∈ l, (((o₂.setBalance a x).setBalance b y).setBalance c 0).balance e = o.balance e := by
    intro l ha hb hc e he
    rw [setBalance_balance, if_neg (ne_of_mem_of_not_mem he hc), setBalance_balance,
      if_neg (ne_of_mem_of_not_mem he hb), setBalance_balance, if_neg (ne_of_mem_of_not_mem he ha), hbalance₂, hbalance₁]
  refine ⟨o₁, o₂, hrotate₁, hrotate₂, hbalance₂.trans hbalance₁, hrep₂.frame rfl rfl rfl, ?_, ?_, ?_, fun e he => ?_, ?_⟩
  · have hlevel : max outer.height near.height = max far.height light.height := by omega
    rw [balanced_nodeAt, balanced_nodeAt, balanced_nodeAt, height_nodeAt, height_nodeAt, hlevel, tilt_self]
    refine ⟨?_, ⟨?_, hbouter.frame (hsame _ haOuter hbOuter hcOuter), hbnear.frame (hsame _ haNear hbNear hcNear)⟩, ?_,
      hbfar.frame (hsame _ haFar hbFar hcFar), hblight.frame (hsame _ haLight hbLight hcLight)⟩
    · rw [setBalance_balance, if_pos rfl]
    · rw [setBalance_balance, if_neg (Ne.symm hcb), setBalance_balance, if_pos rfl, hy]
    · rw [setBalance_balance, if_neg (Ne.symm hca), setBalance_balance, if_neg (Ne.symm hba), setBalance_balance, if_pos rfl, hx]
  · rw [avl_nodeAt, avl_nodeAt, avl_nodeAt, height_nodeAt, height_nodeAt]
    exact ⟨by omega, ⟨by omega, havlOuter, havlNear⟩, by omega, havlFar, hlight⟩
  · rw [inorder_rotated, ← hupper]
  · simp only [mem_nodeAt, not_or] at he
    exact hsame [e] (by grind) (by grind) (by grind) e List.mem_cons_self
  · simp only [height_nodeAt]
    omega

/-- A node that leans by two to one side is rotated towards the other. -/
theorem transform_eq (htilt : o.balance a = if side then 2 else -2) (hlink : o.link a side = some b) :
    o.transform a delta = o.transformChild a side b delta := by
  cases side with
  | false =>
    have htilt : o.balance a = -2 := htilt
    rw [transform, if_neg (by omega), if_pos htilt, hlink]
    rfl
  | true =>
    have htilt : o.balance a = 2 := htilt
    rw [transform, if_pos htilt, hlink]
    rfl

/-- **The transformations**, at a node one of whose subtrees is two higher than the other. -/
theorem transform_settled (delta : Int) {heavy : BinaryTree Nat} (h : Rep o p (nodeAt side a heavy light))
    (hbal : Balanced o (nodeAt side a heavy light)) (hheavy : Avl heavy) (hlight : Avl light)
    (hheight : heavy.height = light.height + 2) :
    ∃ o' t' b change, o.transform a delta = some (o', b, delta + change) ∧ top t' = some b ∧
      (t'.height : Int) = light.height + 3 + change ∧ Settled o o' p (nodeAt side a heavy light) t' := by
  obtain ⟨ha, hbheavy, hblight⟩ := balanced_nodeAt.mp hbal
  obtain ⟨⟨_, hlink, _⟩, hsheavy, _⟩ := shape_nodeAt.mp h.below
  obtain ⟨b, hb⟩ : ∃ b, top heavy = some b := by
    cases htop : top heavy with
    | none => rw [top_none htop, BinaryTree.height] at hheight; omega
    | some b => exact ⟨b, rfl⟩
  obtain ⟨outer, inner, rfl⟩ := nodeAt_cases side hb
  obtain ⟨hbb, hbouter, hbinner⟩ := balanced_nodeAt.mp hbheavy
  obtain ⟨hclose, houter, hinner⟩ := avl_nodeAt.mp hheavy
  rw [top_nodeAt] at hlink
  have htilt : o.balance a = if side then 2 else -2 := by
    rw [ha, hheight]
    cases side <;> simp [tilt]
  rw [height_nodeAt] at hheight
  have hsigned := tilt_signed side outer.height inner.height
  rw [← hbb] at hsigned
  rw [transform_eq htilt hlink]
  unfold transformChild
  simp only [hsigned]
  rcases (by omega : inner.height + 1 = outer.height ∨ inner.height = outer.height ∨ inner.height = outer.height + 1)
    with hin | hin | hin
  · have hx : 0 = tilt side inner.height light.height := by rw [(by omega : inner.height = light.height), tilt_self]
    have hy : 0 = tilt side outer.height (inner.height + 1) := by rw [hin, tilt_self]
    obtain ⟨o₁, hrotate, hsettled⟩ := h.single hbal hheavy hlight (by omega) (by omega) hx hy
    refine ⟨_, _, b, -1, ?_, top_nodeAt side b _ _, ?_, hsettled⟩
    · rw [if_pos (by omega), hrotate]
      rfl
    · rw [height_nodeAt, height_nodeAt]
      omega
  · have hx : 1 * (if side then (1 : Int) else -1) = tilt side inner.height light.height := by
      rw [tilt_eq_signed, (by omega : (inner.height : Int) - light.height = 1)]
    have hy : -1 * (if side then (1 : Int) else -1) = tilt side outer.height (inner.height + 1) := by
      rw [tilt_eq_signed, (by omega : (outer.height : Int) - (inner.height + 1 : Nat) = -1)]
    obtain ⟨o₁, hrotate, hsettled⟩ := h.single hbal hheavy hlight (by omega) (by omega) hx hy
    refine ⟨_, _, b, 0, ?_, top_nodeAt side b _ _, ?_, hsettled⟩
    · rw [if_neg (by omega), if_pos (by omega), hrotate, Int.add_zero]
      rfl
    · rw [height_nodeAt, height_nodeAt]
      omega
  · obtain ⟨⟨_, _, hlinkInner⟩, _, _⟩ := shape_nodeAt.mp hsheavy
    obtain ⟨c, hc⟩ : ∃ c, top inner = some c := by
      cases htop : top inner with
      | none => rw [top_none htop, BinaryTree.height] at hin; omega
      | some c => exact ⟨c, rfl⟩
    obtain ⟨far, near, rfl⟩ := nodeAt_cases (!side) hc
    obtain ⟨hbc, _⟩ := balanced_nodeAt.mp hbinner
    obtain ⟨hcloseInner, _⟩ := avl_nodeAt.mp hinner
    have hca : c ≠ a := by
      have hnodup := (List.nodup_append.mp h.nodup).1
      simp only [nodup_nodeAt, mem_nodeAt, not_or] at hnodup
      exact Ne.symm hnodup.1.1.2.2.1
    have hsignedInner := tilt_signed side near.height far.height
    rw [← tilt_not, ← hbc] at hsignedInner
    rw [height_nodeAt] at hheight hin
    have hx : -max 0 (o.balance c * (if side then 1 else -1)) * (if side then 1 else -1) = tilt side far.height light.height := by
      rw [tilt_eq_signed, hsignedInner, (by omega : -max 0 ((near.height : Int) - far.height) = far.height - light.height)]
    have hy : max 0 (-o.balance c * (if side then 1 else -1)) * (if side then 1 else -1) = tilt side outer.height near.height := by
      rw [tilt_eq_signed, Int.neg_mul, hsignedInner,
        (by omega : max 0 (-((near.height : Int) - far.height)) = outer.height - near.height)]
    obtain ⟨o₁, o₂, hrotate₁, hrotate₂, hbalance, hsettled⟩ := h.double hbal hheavy hlight (by omega) (by omega) hx hy
    refine ⟨_, _, c, -1, ?_, top_nodeAt side c _ _, ?_, hsettled⟩
    · rw [if_neg (by rw [height_nodeAt]; omega), if_neg (by rw [height_nodeAt]; omega), if_pos (by rw [height_nodeAt]; omega),
        hlinkInner, top_nodeAt, Option.bind_some, hrotate₁, Option.bind_some, hrotate₂, Option.map_some]
      simp only [setBalance_balance, if_neg hca, hbalance]
      rfl
    · rw [height_nodeAt, height_nodeAt, height_nodeAt]
      omega

/-- The transformations, at any node. -/
theorem transform_spec (delta : Int) (h : Rep o p (nodeAt side a s t)) (hbal : Balanced o (nodeAt side a s t)) (hs : Avl s)
    (ht : Avl t) (hclose : s.height ≤ t.height + 2 ∧ t.height ≤ s.height + 2) :
    ∃ o' t' b change, o.transform a delta = some (o', b, delta + change) ∧ top t' = some b ∧
      (t'.height : Int) = max s.height t.height + 1 + change ∧ Settled o o' p (nodeAt side a s t) t' ∧
      (change ≠ 0 → s.height = t.height + 2 ∨ t.height = s.height + 2) := by
  rcases (by omega : s.height = t.height + 2 ∨ t.height = s.height + 2 ∨ s.height ≤ t.height + 1 ∧ t.height ≤ s.height + 1)
    with hleft | hright | hlevel
  · obtain ⟨o', t', b, change, htransform, htop, hheight, hsettled⟩ := transform_settled delta h hbal hs ht hleft
    exact ⟨o', t', b, change, htransform, htop, by omega, hsettled, fun _ => .inl hleft⟩
  · rw [← nodeAt_not] at h hbal
    obtain ⟨o', t', b, change, htransform, htop, hheight, hsettled⟩ := transform_settled delta h hbal ht hs hright
    rw [nodeAt_not] at hsettled
    exact ⟨o', t', b, change, htransform, htop, by omega, hsettled, fun _ => .inr hright⟩
  · refine ⟨o, _, a, 0, ?_, top_nodeAt side a s t, ?_, ⟨h, hbal, avl_nodeAt.mpr ⟨hlevel, hs, ht⟩, rfl, fun _ _ => rfl, by omega⟩,
      fun h => (h rfl).elim⟩
    · have hbalance := (balanced_nodeAt.mp hbal).1
      have hleast : o.balance a ≠ 2 ∧ o.balance a ≠ -2 := by
        rw [hbalance]
        cases side <;> simp only [tilt] <;> omega
      rw [transform, if_neg hleast.1, if_neg hleast.2, Int.add_zero]
    · rw [height_nodeAt]
      omega

end Transformations

end KiloProxy.Engine.BAVL
