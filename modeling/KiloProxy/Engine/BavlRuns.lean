import KiloProxy.Engine.BavlRemoval
import Mathlib.Order.Nat

/-!
# The tree of `BAVL.h` holds a set in order

After any calls the tree is one whose nodes are those inserted and not removed since, in the order
of their values, and balanced. So no call fails and the tree passes its own check, a lookup finds
the node of a value, or one next to its place, in as many comparisons as the tree is high, and
from each node the next and the previous one in order are found.
-/

namespace KiloProxy.Engine.BAVL
set_option autoImplicit false
open KiloProxy.Run KiloProxy.Store

variable {o : BAVL} {s s' : Filled} {a n fuel : Nat} {side : Bool} {t : BinaryTree Nat} {p : Path Nat} {up : Option Nat}

section Values

variable {α : Type} [LinearOrder α] {value : Nat → α} {v : α}

/-! ## The invariant -/

/-- A tree with these nodes, in the order of their values. -/
structure Holds (value : Nat → α) (s : Filled) (t : BinaryTree Nat) : Prop where
  tree : Tree s.tree t
  sorted : Sorted value (inorder t)
  perm : (inorder t).Perm s.nodes

def Sound (value : Nat → α) (s : Filled) : Prop := ∃ t, Holds value s t

/-- The size exceeds every path of the tree, so it serves as fuel. -/
theorem Holds.size (h : Holds value s t) : (inorder t).length < s.size := by
  rw [Filled.size, h.perm.length_eq]
  exact Nat.lt_succ_self _

/-- What is near a value does not depend on the order the nodes are listed in. -/
theorem Near.perm {nodes nodes' : List Nat} {c : Option Nat} (h : Near value v nodes c) (hperm : nodes.Perm nodes') :
    Near value v nodes' c := by
  cases c with
  | none =>
    obtain rfl : nodes = [] := h
    exact hperm.nil_eq.symm
  | some c =>
    have hmem : ∀ e, e ∈ nodes' ↔ e ∈ nodes := fun e => hperm.mem_iff.symm
    unfold Near at h ⊢
    simp only [hmem]
    exact h

theorem sound_init (hs : (system value).init s) : Sound value s := by
  obtain ⟨hroot, hnodes⟩ := hs
  exact ⟨.nil, ⟨⟨⟨hroot, trivial, List.nodup_nil⟩, trivial, trivial⟩, List.Pairwise.nil, hnodes ▸ List.Perm.refl _⟩⟩

/-- What an insertion returns, and that it keeps the invariant. -/
theorem Holds.insert (h : Holds value s t) (hn : n ∉ s.nodes) :
    ∃ ref tree, s.tree.insert value s.size n = some (s.nodes.all fun e => value e ≠ value n, ref, tree) ∧
      Near value (value n) s.nodes ref ∧
      Sound value ⟨tree, if s.nodes.all fun e => value e ≠ value n then s.nodes ++ [n] else s.nodes⟩ := by
  obtain ⟨inserted, ref, tree, t', hinsert, hnear, htree, hkept, hput⟩ :=
    h.tree.insert h.sorted (fun hc => hn (h.perm.mem_iff.mp hc)) h.size
  have hinserted : inserted = s.nodes.all fun e => value e ≠ value n := by
    cases inserted with
    | false =>
      obtain ⟨⟨e, he, hv⟩, _⟩ := hkept rfl
      refine (List.all_eq_false.mpr ⟨e, h.perm.mem_iff.mp he, ?_⟩).symm
      simp [hv]
    | true =>
      refine (List.all_eq_true.mpr fun e he => ?_).symm
      exact decide_eq_true ((hput rfl).absent e (h.perm.mem_iff.mpr he))
  refine ⟨ref, tree, hinserted ▸ hinsert, hnear.perm h.perm, t', htree, ?_, ?_⟩
  · cases inserted with
    | false => rw [(hkept rfl).2]; exact h.sorted
    | true => exact (hput rfl).sorted
  · rw [← hinserted]
    cases inserted with
    | false => rw [(hkept rfl).2]; exact h.perm
    | true => exact (hput rfl).perm.trans ((h.perm.cons n).trans (List.perm_append_singleton n _).symm)

/-- Removing a node of the tree succeeds and leaves the other nodes. -/
theorem Holds.remove (h : Holds value s t) (hn : n ∈ s.nodes) :
    ∃ tree, s.tree.remove s.size n = some tree ∧ Sound value ⟨tree, s.nodes.erase n⟩ := by
  obtain ⟨tree, t', hremove, htree, horder⟩ := h.tree.remove (h.perm.mem_iff.mpr hn) h.size
  refine ⟨tree, hremove, t', htree, ?_, ?_⟩
  · rw [horder]
    exact h.sorted.sublist List.erase_sublist
  · rw [horder]
    exact h.perm.erase n

/-- Every call a caller may make keeps the tree sound. -/
theorem Sound.step {c : Call} (h : Sound value s) (hstep : (system value).step s c = some s') : Sound value s' := by
  obtain ⟨t, h⟩ := h
  have hstep : (if s.Calls c then s.handle value c else none) = some s' := hstep
  split at hstep
  case isFalse => cases hstep
  case isTrue hc =>
    cases c with
    | insert n =>
      obtain ⟨ref, tree, hinsert, _, hsound⟩ := h.insert hc
      simp only [Filled.handle, hinsert, Option.map_some] at hstep
      exact Option.some.inj hstep ▸ hsound
    | remove n =>
      obtain ⟨tree, hremove, hsound⟩ := h.remove hc
      simp only [Filled.handle, hremove, Option.map_some] at hstep
      exact Option.some.inj hstep ▸ hsound

/-- The invariant of every reachable tree. -/
theorem reachable_sound (h : Reachable (system value) s) : Sound value s :=
  h.invariant (fun _ => sound_init) fun _ _ _ hs _ hstep => hs.step hstep

/-! ## Reads -/

/-- Below a node each side holds only smaller or only larger values. -/
theorem Sorted.below {s u : BinaryTree Nat} (h : Sorted value (inorder (nodeAt side a s u))) :
    Sorted value (inorder s) ∧ ∀ c ∈ inorder s, if side then value a < value c else value c < value a := by
  cases side with
  | false =>
    obtain ⟨hs, _, hac⟩ := List.pairwise_append.mp h
    exact ⟨hs, fun c hc => hac c hc a List.mem_cons_self⟩
  | true =>
    obtain ⟨_, has, _⟩ := List.pairwise_append.mp h
    obtain ⟨ha, hs⟩ := List.pairwise_cons.mp has
    exact ⟨hs, ha⟩

/-- A tree passes its own check. -/
theorem Shape.assertRecurser (h : Shape o up t) (hbal : Balanced o t) (havl : Avl t) (hsorted : Sorted value (inorder t))
    (htop : top t = some a) (hfuel : t.height ≤ fuel) : BAVL.assertRecurser value o fuel a = some t.height := by
  induction fuel generalizing t a up with
  | zero =>
    cases t with
    | nil => cases htop
    | node _ _ _ => exact absurd hfuel (Nat.not_succ_le_zero _)
  | succ fuel ih =>
    have hsubtree : ∀ side s u, t = nodeAt side a s u →
        assertChild value o (BAVL.assertRecurser value o fuel) a side = some s.height := by
      rintro side s u rfl
      obtain ⟨⟨_, hlink, _⟩, hs, _⟩ := shape_nodeAt.mp h
      obtain ⟨hsortedS, hside⟩ := Sorted.below hsorted
      rw [height_nodeAt] at hfuel
      unfold assertChild
      rw [hlink]
      cases hc : top s with
      | none => rw [top_none hc]; rfl
      | some c =>
        have hcheck := ih hs (balanced_nodeAt.mp hbal).2.1 (avl_nodeAt.mp havl).2.1 hsortedS hc (by omega)
        exact (if_pos ⟨hs.top_parent hc, hside c (top_mem hc)⟩).trans hcheck
    cases t with
    | nil => cases htop
    | node b l r =>
      obtain rfl := Option.some.inj htop
      obtain ⟨hbalance, _⟩ := hbal
      obtain ⟨⟨hle, hle'⟩, _⟩ := havl
      have hsmall : -1 ≤ o.balance b ∧ o.balance b ≤ 1 := by
        rw [hbalance]
        simp only [tilt, Bool.false_eq_true, if_false]
        omega
      unfold BAVL.assertRecurser
      rw [if_neg (not_not_intro hsmall), hsubtree false l r rfl, hsubtree true r l rfl]
      exact if_pos hbalance

/-- The node next to a place on a side. -/
def beyond (side : Bool) (p : Path Nat) : Option Nat := edge (!side) (if side then after p else before p)

theorem beyond_same {d : Turn Nat} : beyond d.side (d :: p) = beyond d.side p := by
  obtain ⟨side, c, u⟩ := d
  cases side with
  | false => simp [beyond, before]
  | true => simp [beyond, after]

theorem beyond_other {d : Turn Nat} (h : d.side ≠ side) : beyond side (d :: p) = some d.node := by
  obtain ⟨right, c, u⟩ := d
  obtain rfl := Bool.eq_not_iff.mpr h
  cases side with
  | false => simp [beyond, before, edge]
  | true => simp [beyond, after, edge]

/-- Climbing past all turns of one side ends at the next node beyond the subtree. -/
theorem Rep.climb (h : Rep o p t) (htop : top t = some n) (hfuel : p.length < fuel) :
    BAVL.climb side o fuel n = some (beyond side p) := by
  induction fuel generalizing p t n with
  | zero => exact absurd hfuel (Nat.not_lt_zero _)
  | succ fuel ih =>
    unfold BAVL.climb
    rw [h.below.top_parent htop]
    cases p with
    | nil => cases side <;> rfl
    | cons d p =>
      have hout := h.outside
      rw [htop] at hout
      obtain ⟨_, hlink, hother⟩ := hout.1
      change (if o.link d.node side = some n then BAVL.climb side o fuel d.node else some (some d.node)) = _
      by_cases hside : d.side = side
      · subst hside
        rw [if_pos hlink, beyond_same]
        exact ih (rep_cons.mp h) (top_nodeAt _ _ _ _) (Nat.lt_of_succ_lt_succ hfuel)
      · rw [← Bool.eq_not_iff.mpr (Ne.symm hside)] at hother
        -- the node is not in the other subtree
        have hnot : o.link d.node side ≠ some n := fun hn => h.apart (top_mem htop)
          (List.mem_cons_of_mem _ (List.mem_append_left _ (top_mem (hother.symm.trans hn))))
        rw [if_neg hnot, beyond_other hside]

/-- The neighbour in the order is the edge of a subtree, or else lies beyond it. -/
theorem Rep.neighbour {s u : BinaryTree Nat} (h : Rep o p (nodeAt side n s u))
    (hfuel : (inorder (nodeAt side n s u) ++ around p).length < fuel) :
    BAVL.neighbour side fuel o n = some ((edge (!side) (inorder s)).or (beyond side p)) := by
  obtain ⟨⟨_, hlink, _⟩, hs, _⟩ := shape_nodeAt.mp h.below
  have hp := length_le_around p
  have hheight := height_le_length s
  rw [List.length_append, (inorder_nodeAt_perm side n s u).length_eq, List.length_cons, List.length_append] at hfuel
  unfold BAVL.neighbour
  rw [hlink]
  cases hc : top s with
  | none =>
    rw [top_none hc]
    have hclimb := @Rep.climb o n fuel side _ p h (top_nodeAt side n s u) (by omega)
    refine hclimb.trans ?_
    cases side <;> rfl
  | some c =>
    obtain ⟨m, hdescend, hedge, _⟩ := @Shape.descend o c (!side) s _ fuel hs hc (by omega)
    rw [hedge]
    simp only [hdescend, Option.map_some]
    rfl

/-- **The next node and the previous one.** -/
theorem Tree.next_prev {l r : List Nat} (h : Tree o t) (ht : inorder t = l ++ n :: r) (hfuel : (inorder t).length < fuel) :
    o.getNext fuel n = some r.head? ∧ o.getPrev fuel n = some l.getLast? := by
  obtain ⟨p, left, right, rfl⟩ := exists_plug (ht ▸ List.mem_append_right l List.mem_cons_self)
  have hrep := rep_plug.mp h.rep
  rw [(around_perm p _).length_eq] at hfuel
  have horder : inorder (plug p (.node n left right)) = (before p ++ inorder left) ++ n :: (inorder right ++ after p) := by
    rw [inorder_plug, inorder, List.append_assoc, List.append_assoc, List.cons_append]
  have hnodup : (inorder (plug p (.node n left right))).Nodup := h.rep.once
  have hl : n ∉ l := fun hc => (List.nodup_append'.mp (ht ▸ hnodup)).2.2 hc List.mem_cons_self
  have hr : n ∉ r := (List.nodup_cons.mp (List.nodup_append'.mp (ht ▸ hnodup)).2.1).1
  obtain ⟨rfl, _, rfl⟩ := (List.append_cons_inj_of_notMem hl hr).mp (horder.symm.trans ht).symm
  have hnext := @Rep.neighbour o n fuel true p right left hrep hfuel
  have hprev := @Rep.neighbour o n fuel false p left right hrep hfuel
  refine ⟨hnext.trans (congrArg some ?_), hprev.trans (congrArg some ?_)⟩
  · exact List.head?_append.symm
  · exact List.getLast?_append.symm

/-- Following one side down ends at that edge of the order. -/
theorem Shape.outermost (h : Shape o none t) (hroot : o.root = top t) (hfuel : t.height ≤ fuel) :
    BAVL.outermost side fuel o = some (edge side (inorder t)) := by
  unfold BAVL.outermost
  rw [hroot]
  cases hc : top t with
  | none =>
    rw [top_none hc]
    cases side <;> rfl
  | some c =>
    obtain ⟨m, hdescend, hedge, _⟩ := @Shape.descend o c side t _ fuel h hc hfuel
    simp only [hdescend, hedge, Option.map_some]

/-- The way down ends in as many steps as a balanced tree with these nodes may be high. -/
theorem Tree.height_le (h : Tree o t) (hfuel : (inorder t).length + 1 < Nat.fib (fuel + 3)) : t.height ≤ fuel := by
  by_contra hlow
  have hfib := h.avl.fib_height
  have hmono : Nat.fib (fuel + 3) ≤ Nat.fib (t.height + 2) := Nat.fib_mono (by omega)
  omega

/-- Nodes of one value are one node. -/
theorem Holds.unique (h : Holds value s t) {e : Nat} (ha : a ∈ s.nodes) (he : e ∈ s.nodes) (hv : value a = value e) : a = e := by
  by_contra hne
  have : Std.Symm fun a b : Nat => value a ≠ value b := ⟨fun _ _ => Ne.symm⟩
  have hdistinct : (inorder t).Pairwise fun a b => value a ≠ value b := h.sorted.imp fun hlt => hlt.ne
  exact hdistinct.forall (h.perm.mem_iff.mpr ha) (h.perm.mem_iff.mpr he) hne hv

/-- A search of the node list by value finds the node that has it. -/
theorem Holds.find (h : Holds value s t) (ha : a ∈ s.nodes) (hv : value a = v) :
    s.nodes.find? (fun e => value e = v) = some a := by
  cases hfind : s.nodes.find? fun e => value e = v with
  | none => exact absurd (decide_eq_true hv) (List.find?_eq_none.mp hfind a ha)
  | some e =>
    have hfound := List.find?_some hfind
    have hev : value e = v := of_decide_eq_true hfound
    rw [h.unique (List.mem_of_find?_eq_some hfind) ha (hev.trans hv.symm)]

/-! ## Results -/

/-- Nodes that come in order, and two that are taken out. -/
def ascending : List Call := (List.range 7).map Call.insert ++ [.remove 3, .insert 3, .remove 5]

/-- The nodes of the runs below, by their numbers. -/
def ranTo (calls : List Call) : Option Filled :=
  exec (system fun n => n) ⟨⟨none, fun _ => none, fun _ _ => none, fun _ => 0⟩, []⟩ calls

theorem ranTo_reachable {calls : List Call} (h : ranTo calls = some s) : Reachable (system fun n => n) s :=
  exec_reaches calls (.start ⟨rfl, rfl⟩) h

/-- **No call fails.** A node is inserted unless there is an equal one, and the tree passes its own check at any time. -/
theorem calls_succeed (h : Reachable (system value) s) :
    (∀ n ∉ s.nodes, ∃ ref tree, s.tree.insert value s.size n = some (s.nodes.all fun e => value e ≠ value n, ref, tree) ∧
      Near value (value n) s.nodes ref) ∧
      (∀ n ∈ s.nodes, ∃ tree, s.tree.remove s.size n = some tree) ∧ s.tree.verify value s.size = true := by
  obtain ⟨t, ht⟩ := reachable_sound h
  refine ⟨fun n hn => ?_, fun n hn => ?_, ?_⟩
  · obtain ⟨ref, tree, hinsert, hnear, _⟩ := ht.insert hn
    exact ⟨ref, tree, hinsert, hnear⟩
  · obtain ⟨tree, hremove, _⟩ := ht.remove hn
    exact ⟨tree, hremove⟩
  · have hroot : s.tree.root = top t := ht.tree.rep.outside
    have hsize := ht.size
    have hheight := height_le_length t
    unfold verify
    rw [hroot]
    cases hc : top t with
    | none => rfl
    | some c =>
      have hcheck := ht.tree.rep.below.assertRecurser ht.tree.balanced ht.tree.avl ht.sorted hc
        (by omega : t.height ≤ s.size)
      simp only [ht.tree.rep.below.top_parent hc, hcheck]
      rfl

theorem calls_succeed_ascending :
    ∃ s, ranTo ascending = some s ∧
      (∀ n ∉ s.nodes, ∃ ref tree,
        s.tree.insert (fun n => n) s.size n = some (s.nodes.all fun e => e ≠ n, ref, tree) ∧
          Near (fun n => n) n s.nodes ref) ∧
        (∀ n ∈ s.nodes, ∃ tree, s.tree.remove s.size n = some tree) ∧ s.tree.verify (fun n => n) s.size = true := by
  obtain ⟨s, hs⟩ : ∃ s, ranTo ascending = some s := Option.isSome_iff_exists.mp (by decide +kernel)
  exact ⟨s, hs, calls_succeed (ranTo_reachable hs)⟩

/-- **A lookup finds the node of a value**, or one next to its place, in so few steps that a Fibonacci number of them
is more than there are nodes. -/
theorem lookups_find (h : Reachable (system value) s) (hfuel : s.nodes.length + 1 < Nat.fib (fuel + 3)) (v : α) :
    s.tree.lookupExact value fuel v = some (s.nodes.find? fun e => value e = v) ∧
      ∃ ref, s.tree.lookup value fuel v = some ref ∧ Near value v s.nodes ref := by
  obtain ⟨t, ht⟩ := reachable_sound h
  have hroot : s.tree.root = top t := ht.tree.rep.outside
  unfold lookupExact lookup
  rw [hroot]
  cases hc : top t with
  | none =>
    obtain rfl := top_none hc
    have hnodes : s.nodes = [] := ht.perm.nil_eq.symm
    exact ⟨by rw [hnodes]; rfl, none, rfl, hnodes⟩
  | some c =>
    obtain ⟨found, hplace, hfound⟩ := @Shape.findPlace s.tree t [] _ _ value v none c fuel ht.tree.rep.below hc ht.sorted
      ⟨nofun, nofun⟩ (ht.tree.height_le (ht.perm.length_eq ▸ hfuel))
    simp only [hplace, Option.map_some]
    cases hfound with
    | @equal e he hv =>
      have hmem := ht.perm.mem_iff.mp he
      exact ⟨congrArg some (ht.find hmem hv).symm, some e, rfl, hmem, .inl hv⟩
    | @place d p hplug hbetween =>
      rw [plug] at hplug
      subst hplug
      have habsent := hbetween.absent (inorder_plug (d :: p) .nil)
      refine ⟨congrArg some (List.find?_eq_none.mpr fun e he => ?_).symm, _, rfl, (hbetween.near ht.sorted).perm ht.perm⟩
      exact fun hv => habsent e (ht.perm.mem_iff.mpr he) (of_decide_eq_true hv)

theorem lookups_find_ascending :
    ∃ s, ranTo ascending = some s ∧ s.nodes.length = 6 ∧ ∀ v,
      s.tree.lookupExact (fun n => n) 3 v = some (s.nodes.find? fun e => e = v) ∧
        ∃ ref, s.tree.lookup (fun n => n) 3 v = some ref ∧ Near (fun n => n) v s.nodes ref := by
  obtain ⟨s, hs, hlength⟩ : ∃ s ∈ ranTo ascending, s.nodes.length = 6 := by decide +kernel
  exact ⟨s, hs, hlength, lookups_find (ranTo_reachable hs) (hlength ▸ by decide)⟩

/-- **The nodes are in the order of their values**, from the first to the last and back. -/
theorem nodes_in_order (h : Reachable (system value) s) :
    ∃ l : List Nat, l.Perm s.nodes ∧ Sorted value l ∧ s.tree.isEmpty = l.isEmpty ∧
      s.tree.getFirst s.size = some l.head? ∧ s.tree.getLast s.size = some l.getLast? ∧
        ∀ l₁ n l₂, l = l₁ ++ n :: l₂ →
          s.tree.getNext s.size n = some l₂.head? ∧ s.tree.getPrev s.size n = some l₁.getLast? := by
  obtain ⟨t, ht⟩ := reachable_sound h
  have hroot : s.tree.root = top t := ht.tree.rep.outside
  have hsize := ht.size
  have hheight : t.height ≤ s.size := (height_le_length t).trans hsize.le
  refine ⟨inorder t, ht.perm, ht.sorted, ?_, ht.tree.rep.below.outermost hroot hheight,
    ht.tree.rep.below.outermost hroot hheight, fun l₁ n l₂ hl => ht.tree.next_prev hl hsize⟩
  unfold isEmpty
  rw [hroot]
  cases t with
  | nil => rfl
  | node a l r => simp [top, inorder]

theorem nodes_in_order_ascending :
    ∃ s, ranTo ascending = some s ∧ ∃ l : List Nat, l.Perm s.nodes ∧ Sorted (fun n => n) l ∧
      s.tree.isEmpty = l.isEmpty ∧ s.tree.getFirst s.size = some l.head? ∧ s.tree.getLast s.size = some l.getLast? ∧
        ∀ l₁ n l₂, l = l₁ ++ n :: l₂ →
          s.tree.getNext s.size n = some l₂.head? ∧ s.tree.getPrev s.size n = some l₁.getLast? := by
  obtain ⟨s, hs⟩ : ∃ s, ranTo ascending = some s := Option.isSome_iff_exists.mp (by decide +kernel)
  exact ⟨s, hs, nodes_in_order (ranTo_reachable hs)⟩

end Values

end KiloProxy.Engine.BAVL
