import KiloProxy.Engine.BavlInsertion
import Mathlib.Logic.Equiv.Basic

/-!
# Removal from the tree of `BAVL.h`

A node with two subtrees is first swapped with the one before it in order, which is a renaming of
the nodes; then a node with one subtree at most is taken out.

That the swap is a renaming (`Renamed`) is read off the pointers one by one, once for two nodes
apart and once for a parent and its child; of the tree only that its pointers go both ways
(`Joined`) is needed. What rebalances after the removal is the loop of the insertion, with a
subtree that has become lower.
-/

namespace KiloProxy.Engine.BAVL
set_option autoImplicit false
open KiloProxy.Store

variable {o o' : BAVL} {a b n : Nat} {side : Bool} {s t u : BinaryTree Nat} {p : Path Nat} {d : Turn Nat}

/-! ## Two nodes swapped -/

/-- The pointers of these nodes go both ways. -/
structure Joined (o : BAVL) (nodes : List Nat) : Prop where
  down : ∀ c ∈ nodes, ∀ side, ∀ d, o.link c side = some d → d ∈ nodes ∧ o.parent d = some c
  up : ∀ c ∈ nodes, ∀ d, o.parent c = some d → d ∈ nodes ∧ ∃ side, o.link d side = some c
  sides : ∀ c ∈ nodes, ∀ d, o.link c false = some d → o.link c true ≠ some d
  root : ∀ c, o.root = some c → c ∈ nodes
  first : ∀ c ∈ nodes, o.root = some c ↔ o.parent c = none
  self : ∀ c ∈ nodes, o.parent c ≠ some c

/-- The nodes are the same but for their names. -/
structure Renamed (σ : Nat → Nat) (o o' : BAVL) (nodes : List Nat) : Prop where
  root : o'.root = o.root.map σ
  parent : ∀ c ∈ nodes, o'.parent (σ c) = (o.parent c).map σ
  link : ∀ c ∈ nodes, ∀ side, o'.link (σ c) side = (o.link c side).map σ

section Swap

variable {nodes : List Nat} {m c : Nat}

/-- No node hangs under itself. -/
theorem Joined.linkSelf (h : Joined o nodes) (hc : c ∈ nodes) : o.link c side ≠ some c := fun hlink =>
  h.self c hc (h.down c hc side c hlink).2

/-- The test the source makes on the parent tells the side a child hangs on. -/
theorem Joined.decide_side (h : Joined o nodes) (hc : c ∈ nodes) (hlink : o.link c side = some n) :
    decide (o.link c true = some n) = side := by
  cases side with
  | true => exact decide_eq_true hlink
  | false => exact decide_eq_false (h.sides c hc n hlink)

/-- A child hangs on one side alone. -/
theorem Joined.other (h : Joined o nodes) (hc : c ∈ nodes) (hlink : o.link c side = some n) : o.link c (!side) ≠ some n := by
  cases side with
  | true => exact fun hother => h.sides c hc n hother hlink
  | false => exact h.sides c hc n hlink

theorem map_swap {x : Option Nat} (hn : x ≠ some n) (hm : x ≠ some m) : x.map (Equiv.swap n m) = x := by
  cases x with
  | none => rfl
  | some x =>
    exact congrArg some (Equiv.swap_apply_of_ne_of_ne (fun h => hn (congrArg some h)) fun h => hm (congrArg some h))

/-- The header after a swap names the root with both nodes exchanged. -/
theorem Joined.root_swap (h : Joined o nodes) (hn : n ∈ nodes) (hm : m ∈ nodes) :
    (if o.parent n = none then some m else if o.parent m = none then some n else o.root) =
      o.root.map (Equiv.swap n m) := by
  by_cases hrootN : o.root = some n
  · rw [if_pos ((h.first n hn).mp hrootN), hrootN, Option.map_some, Equiv.swap_apply_left]
  rw [if_neg fun hp => hrootN ((h.first n hn).mpr hp)]
  by_cases hrootM : o.root = some m
  · rw [if_pos ((h.first m hm).mp hrootM), hrootM, Option.map_some, Equiv.swap_apply_right]
  · rw [if_neg fun hp => hrootM ((h.first m hm).mpr hp), map_swap hrootN hrootM]

/-- Neither node is above the other, nor are they the children of one. -/
structure Apart (o : BAVL) (n m : Nat) : Prop where
  ne : n ≠ m
  up : o.parent n ≠ some m
  down : o.parent m ≠ some n
  parents : ∀ c, o.parent m = some c → o.parent n ≠ some c

/-- The links of the two nodes are to others. -/
theorem Apart.links (hapart : Apart o n m) (h : Joined o nodes) (hn : n ∈ nodes) (hm : m ∈ nodes) :
    ∀ s, (o.link n s ≠ some n ∧ o.link n s ≠ some m) ∧ o.link m s ≠ some n ∧ o.link m s ≠ some m := fun s =>
  ⟨⟨h.linkSelf hn, fun hlink => hapart.down (h.down n hn s m hlink).2⟩,
    fun hlink => hapart.up (h.down m hm s n hlink).2, h.linkSelf hm⟩

/-- The parents after two nodes that are not joined have changed places. -/
theorem swapApart_parent (hapart : Apart o n m) (h : Joined o nodes) (hn : n ∈ nodes) (hm : m ∈ nodes) :
    (o.swapApart n m).parent c =
      if o.link n true = some c then some m else if o.link m true = some c then some n
      else if o.link n false = some c then some m else if o.link m false = some c then some n
      else if c = m then o.parent n else if c = n then o.parent m else o.parent c := by
  have hlinks := hapart.links h hn hm
  simp only [swapApart, setParent_parent, setLink_parent, setLink_link, adopt_parent, adopt_link, setParent_link,
    setChild_link, setChild_parent]
  simp [hapart.ne, hapart.ne.symm, hapart.up, hapart.down, h.self n hn, h.self m hm, hlinks]

/-- The links after two nodes that are not joined have changed places. -/
theorem swapApart_link (hapart : Apart o n m) (h : Joined o nodes) (hn : n ∈ nodes) (hm : m ∈ nodes) :
    (o.swapApart n m).link c side =
      if c = n then o.link m side else if c = m then o.link n side
      else if o.parent n = some c ∧ side = (o.link c true = some n : Bool) then some m
      else if o.parent m = some c ∧ side = (o.link c true = some m : Bool) then some n else o.link c side := by
  have hlinks := hapart.links h hn hm
  have hselfN := h.self n hn
  have hselfM := h.self m hm
  simp only [swapApart, setParent_parent, ↓reduceIte, setChild_link, hapart.up, setParent_link, hselfM, hlinks,
    decide_false, and_self, and_true, setLink_link, hselfN, hapart.down, adopt_link, hapart.ne.symm,
    hapart.ne, Bool.true_eq, ite_eq_left_iff, not_and, Bool.not_eq_true, decide_implies, dite_eq_ite,
    Bool.if_true_right, Bool.decide_eq_false, Bool.not_or, Bool.not_not]
  by_cases hcn : c = n
  · subst hcn
    cases side <;> simp [hapart.ne]
  by_cases hcm : c = m
  · subst hcm
    cases side <;> simp [hcn]
  simp only [hcn, hcm, false_and, if_false]
  by_cases hp : o.parent n = some c
  · have hq : o.parent m ≠ some c := fun hq => hapart.parents c hq hp
    simp [hp, hq]
  · simp only [hp, false_and, if_false]
    congr

/-- For nodes that are not joined the swap is a renaming of the two. -/
theorem swapApart_renamed (hapart : Apart o n m) (h : Joined o nodes) (hn : n ∈ nodes) (hm : m ∈ nodes) :
    Renamed (Equiv.swap n m) o (o.swapApart n m) nodes := by
  have hlinks := hapart.links h hn hm
  refine ⟨?_, fun c hc => ?_, fun c hc side => ?_⟩
  · simp only [swapApart, adopt_root, setLink_root, setChild_root, setParent_root, setParent_parent, ↓reduceIte]
    exact h.root_swap hn hm
  · rw [swapApart_parent hapart h hn hm]
    by_cases hcn : c = n
    · subst hcn
      rw [Equiv.swap_apply_left, map_swap (h.self c hc) hapart.up]
      simp [hlinks]
    by_cases hcm : c = m
    · subst hcm
      rw [Equiv.swap_apply_right, map_swap hapart.down (h.self c hc)]
      simp [hlinks, hapart.ne]
    rw [Equiv.swap_apply_of_ne_of_ne hcn hcm]
    have hparentN : ∀ s, o.link n s = some c → o.parent c = some n := fun s hlink => (h.down n hn s c hlink).2
    have hparentM : ∀ s, o.link m s = some c → o.parent c = some m := fun s hlink => (h.down m hm s c hlink).2
    by_cases hpn : o.parent c = some n
    · obtain ⟨_, s, hs⟩ := h.up c hc n hpn
      rw [hpn, Option.map_some, Equiv.swap_apply_left]
      cases s <;> grind
    by_cases hpm : o.parent c = some m
    · obtain ⟨_, s, hs⟩ := h.up c hc m hpm
      rw [hpm, Option.map_some, Equiv.swap_apply_right]
      cases s <;> grind
    · rw [map_swap hpn hpm]
      grind
  · rw [swapApart_link hapart h hn hm]
    by_cases hcn : c = n
    · subst hcn
      rw [Equiv.swap_apply_left, map_swap (hlinks side).1.1 (hlinks side).1.2, if_neg hapart.ne.symm, if_pos rfl]
    by_cases hcm : c = m
    · subst hcm
      rw [Equiv.swap_apply_right, map_swap (hlinks side).2.1 (hlinks side).2.2, if_pos rfl]
    rw [Equiv.swap_apply_of_ne_of_ne hcn hcm, if_neg hcn, if_neg hcm]
    by_cases hlinkN : o.link c side = some n
    · rw [hlinkN, Option.map_some, Equiv.swap_apply_left,
        if_pos ⟨(h.down c hc side n hlinkN).2, (h.decide_side hc hlinkN).symm⟩]
    by_cases hlinkM : o.link c side = some m
    · have hp := (h.down c hc side m hlinkM).2
      rw [hlinkM, Option.map_some, Equiv.swap_apply_right, if_neg fun h => hapart.parents c hp h.1,
        if_pos ⟨hp, (h.decide_side hc hlinkM).symm⟩]
    · rw [map_swap hlinkN hlinkM, if_neg, if_neg]
      · rintro ⟨hp, hside⟩
        obtain ⟨_, s, hs⟩ := h.up m hm c hp
        rw [h.decide_side hc hs] at hside
        exact hlinkM (hside ▸ hs)
      · rintro ⟨hp, hside⟩
        obtain ⟨_, s, hs⟩ := h.up n hn c hp
        rw [h.decide_side hc hs] at hside
        exact hlinkN (hside ▸ hs)

/-- The parents after a node has changed places with its own child. -/
theorem swapConnected_parent (h : Joined o nodes) (hn : n ∈ nodes) (hm : m ∈ nodes) (hlink : o.link n side = some m)
    (hnot : o.parent n ≠ some m) :
    (o.swapConnected n m).parent c =
      if o.link n (!side) = some c then some m else if c = n then some m else if c = m then o.parent n
      else if o.link m true = some c then some n else if o.link m false = some c then some n else o.parent c := by
  have hne : n ≠ m := by rintro rfl; exact h.linkSelf hn hlink
  have hlinkM : ∀ s, o.link m s ≠ some n ∧ o.link m s ≠ some m := fun s =>
    ⟨fun hlink => hnot (h.down m hm s n hlink).2, h.linkSelf hm⟩
  have hside := h.decide_side hn hlink
  simp [swapConnected, hside, hne.symm, hlinkM]

/-- The links after a node has changed places with its own child. -/
theorem swapConnected_link {right : Bool} (h : Joined o nodes) (hn : n ∈ nodes) (hm : m ∈ nodes)
    (hlink : o.link n side = some m) (hnot : o.parent n ≠ some m) :
    (o.swapConnected n m).link c right =
      if c = m then (if right = side then some n else o.link n right) else if c = n then o.link m right
      else if o.parent n = some c ∧ right = (o.link c true = some n : Bool) then some m else o.link c right := by
  have hlinkM : ∀ s, o.link m s ≠ some n := fun s hlink => hnot (h.down m hm s n hlink).2
  have hside := h.decide_side hn hlink
  have hself := h.self n hn
  simp only [swapConnected, setLink_link, and_self, ↓reduceIte, adopt_link, Bool.true_eq_false, and_false, adopt_parent,
    hlinkM, setLink_parent, setParent_parent, hside, setParent_link, setChild_link, and_true]
  by_cases hcm : c = m
  · subst hcm
    by_cases hright : right = side
    · subst hright
      simp
    · have hright : right = !side := Bool.eq_not_iff.mpr hright
      simp [hright]
  by_cases hcn : c = n
  · subst hcn
    cases right <;> simp [hcm, hself]
  · simp only [hcm, hcn, false_and, if_false]

/-- The first node is above the second. -/
theorem swapConnected_renamed (h : Joined o nodes) (hn : n ∈ nodes) (hm : m ∈ nodes)
    (hup : o.parent m = some n) (hnot : o.parent n ≠ some m) :
    Renamed (Equiv.swap n m) o (o.swapConnected n m) nodes := by
  obtain ⟨_, side, hlink⟩ := h.up m hm n hup
  have hne : n ≠ m := by rintro rfl; exact h.linkSelf hn hlink
  have hlinkM : ∀ s, o.link m s ≠ some n ∧ o.link m s ≠ some m := fun s =>
    ⟨fun hlink => hnot (h.down m hm s n hlink).2, h.linkSelf hm⟩
  have hlinkN : ∀ s c, o.link n s = some c → c ≠ m → s = !side := fun s c hs hc => 
    Bool.eq_not_iff.mpr (by rintro rfl; exact hc (Option.some.inj (hs.symm.trans hlink)))
  refine ⟨?_, fun c hc => ?_, fun c hc right => ?_⟩
  · rw [← h.root_swap hn hm, if_neg (hup ▸ Option.some_ne_none n : o.parent m ≠ none)]
    simp [swapConnected, hlinkM]
  · rw [swapConnected_parent h hn hm hlink hnot]
    by_cases hcn : c = n
    · subst hcn
      rw [Equiv.swap_apply_left, map_swap (h.self c hc) hnot, if_neg (h.other hn hlink), if_neg hne.symm, if_pos rfl]
    by_cases hcm : c = m
    · subst hcm
      rw [Equiv.swap_apply_right, hup, Option.map_some, Equiv.swap_apply_left, if_neg (h.linkSelf hn), if_pos rfl]
    rw [Equiv.swap_apply_of_ne_of_ne hcn hcm]
    by_cases hpn : o.parent c = some n
    · obtain ⟨_, s, hs⟩ := h.up c hc n hpn
      obtain rfl := hlinkN s c hs hcm
      rw [if_pos hs, hpn, Option.map_some, Equiv.swap_apply_left]
    rw [if_neg fun hs => hpn (h.down n hn _ c hs).2, if_neg hcn, if_neg hcm]
    by_cases hpm : o.parent c = some m
    · obtain ⟨_, s, hs⟩ := h.up c hc m hpm
      rw [hpm, Option.map_some, Equiv.swap_apply_right]
      cases s <;> simp [hs]
    · rw [if_neg fun hs => hpm (h.down m hm _ c hs).2, if_neg fun hs => hpm (h.down m hm _ c hs).2, map_swap hpn hpm]
  · rw [swapConnected_link h hn hm hlink hnot]
    by_cases hcn : c = n
    · subst hcn
      rw [Equiv.swap_apply_left, if_pos rfl]
      by_cases hright : right = side
      · rw [if_pos hright, hright, hlink, Option.map_some, Equiv.swap_apply_right]
      · obtain rfl := Bool.eq_not_iff.mpr hright
        rw [if_neg hright, map_swap (h.linkSelf hc) (h.other hc hlink)]
    by_cases hcm : c = m
    · subst hcm
      rw [Equiv.swap_apply_right, if_neg hne, if_pos rfl, map_swap (hlinkM right).1 (hlinkM right).2]
    rw [Equiv.swap_apply_of_ne_of_ne hcn hcm, if_neg hcm, if_neg hcn]
    have hnotM : o.link c right ≠ some m := fun hs => hcn (Option.some.inj ((h.down c hc right m hs).2.symm.trans hup))
    by_cases hlinkC : o.link c right = some n
    · rw [if_pos ⟨(h.down c hc right n hlinkC).2, (h.decide_side hc hlinkC).symm⟩, hlinkC, Option.map_some,
        Equiv.swap_apply_left]
    · rw [map_swap hlinkC hnotM, if_neg]
      rintro ⟨hp, hright⟩
      obtain ⟨_, s, hs⟩ := h.up n hn c hp
      rw [h.decide_side hc hs] at hright
      exact hlinkC (hright ▸ hs)

end Swap

/-- In memory that holds a tree, parents and links agree. -/
theorem Rep.joined (h : Rep o [] t) : Joined o (inorder t) := by
  have hat : ∀ c ∈ inorder t, ∃ p l r, t = plug p (.node c l r) ∧ Rep o p (.node c l r) := fun c hc => by
    obtain ⟨p, l, r, rfl⟩ := exists_plug hc
    exact ⟨p, l, r, rfl, rep_plug.mp h⟩
  have hbelow : ∀ {p : Path Nat} {s : BinaryTree Nat} {c : Nat}, t = plug p s → c ∈ inorder s ∨ c ∈ around p → c ∈ inorder t := by
    rintro p s c rfl hc
    exact (around_perm p s).mem_iff.mpr (List.mem_append.mpr hc)
  refine ⟨fun c hc side d hlink => ?_, fun c hc d hparent => ?_, fun c hc d hleft hright => ?_, fun c hroot => ?_,
    fun c hc => ⟨fun hroot => ?_, fun hparent => ?_⟩, fun c hc hparent => ?_⟩
  · obtain ⟨p, l, r, ht, hrep⟩ := hat c hc
    obtain ⟨s, u, hs⟩ : ∃ s u, BinaryTree.node c l r = nodeAt side c s u := nodeAt_cases side rfl
    rw [hs] at hrep ht
    obtain ⟨⟨_, hlinkS, _⟩, hshape, _⟩ := shape_nodeAt.mp hrep.below
    have htop := hlinkS.symm.trans hlink
    exact ⟨hbelow ht (.inl (mem_nodeAt.mpr (.inr (.inl (top_mem htop))))), hshape.top_parent htop⟩
  · obtain ⟨p, l, r, ht, hrep⟩ := hat c hc
    have hp : parentOf p = some d := hrep.below.1.1.symm.trans hparent
    cases p with
    | nil => cases hp
    | cons e p =>
      obtain rfl := Option.some.inj hp
      exact ⟨hbelow ht (.inr List.mem_cons_self), e.side, hrep.outside.1.2.1⟩
  · obtain ⟨p, l, r, ht, hrep⟩ := hat c hc
    have hnodup := (@nodup_nodeAt _ false _ _ _).mp (List.nodup_append.mp hrep.nodup).1
    exact hnodup.2.2.2 d (top_mem (hrep.below.1.2.1.symm.trans hleft)) (top_mem (hrep.below.1.2.2.symm.trans hright))
  · exact top_mem (h.outside.symm.trans hroot)
  · exact h.below.top_parent (h.outside.symm.trans hroot)
  · obtain ⟨p, l, r, ht, hrep⟩ := hat c hc
    have hp : parentOf p = none := hrep.below.1.1.symm.trans hparent
    cases p with
    | nil => rw [ht] at h; exact h.outside
    | cons e p => cases hp
  · obtain ⟨p, l, r, ht, hrep⟩ := hat c hc
    exact hrep.apart (List.mem_append_right _ List.mem_cons_self) (parentOf_mem (hrep.below.1.1.symm.trans hparent))

theorem top_map (σ : Nat → Nat) (t : BinaryTree Nat) : top (t.map σ) = (top t).map σ := by cases t <;> rfl

theorem inorder_map (σ : Nat → Nat) (t : BinaryTree Nat) : inorder (t.map σ) = (inorder t).map σ := by
  induction t with
  | nil => rfl
  | node a l r ihl ihr => rw [BinaryTree.map, inorder, inorder, ihl, ihr, List.map_append, List.map_cons]

theorem height_map (σ : Nat → Nat) (t : BinaryTree Nat) : (t.map σ).height = t.height := by
  induction t with
  | nil => rfl
  | node a l r ihl ihr => rw [BinaryTree.map, BinaryTree.height, BinaryTree.height, ihl, ihr]

theorem avl_map (σ : Nat → Nat) (h : Avl t) : Avl (t.map σ) := by
  induction t with
  | nil => trivial
  | node a l r ihl ihr =>
    obtain ⟨hclose, hl, hr⟩ := h
    exact ⟨by rw [height_map, height_map]; exact hclose, ihl hl, ihr hr⟩

section Renaming

variable {σ : Nat → Nat}

/-- Renamed memory holds the renamed tree. -/
theorem Renamed.shape {up : Option Nat} {nodes : List Nat} (hr : Renamed σ o o' nodes) (h : Shape o up t)
    (hsub : inorder t ⊆ nodes) : Shape o' (up.map σ) (t.map σ) := by
  induction t generalizing up with
  | nil => trivial
  | node a l r ihl ihr =>
    obtain ⟨⟨hup, hleft, hright⟩, hl, hr'⟩ := h
    have ha : a ∈ nodes := hsub (List.mem_append_right _ List.mem_cons_self)
    refine ⟨⟨?_, ?_, ?_⟩, ihl hl fun c hc => hsub (List.mem_append_left _ hc),
      ihr hr' fun c hc => hsub (List.mem_append_right _ (List.mem_cons_of_mem _ hc))⟩
    · rw [hr.parent a ha, hup]
    · rw [hr.link a ha, hleft, top_map]
    · rw [hr.link a ha, hright, top_map]

theorem balanced_map (hbal : ∀ c ∈ inorder t, o'.balance (σ c) = o.balance c) (h : Balanced o t) : Balanced o' (t.map σ) := by
  induction t with
  | nil => trivial
  | node a l r ihl ihr =>
    obtain ⟨ha, hl, hr⟩ := h
    refine ⟨?_, ihl (fun c hc => hbal c (List.mem_append_left _ hc)) hl,
      ihr (fun c hc => hbal c (List.mem_append_right _ (List.mem_cons_of_mem _ hc))) hr⟩
    rw [hbal a (List.mem_append_right _ List.mem_cons_self), ha, height_map, height_map]

/-- **A tree whose nodes are renamed** is the tree of the new names. -/
theorem Tree.renamed (h : Tree o t) (hσ : σ.Injective) (hr : Renamed σ o o' (inorder t))
    (hbal : ∀ c ∈ inorder t, o'.balance (σ c) = o.balance c) : Tree o' (t.map σ) := by
  refine ⟨⟨?_, hr.shape h.rep.below (List.Subset.refl _), ?_⟩, balanced_map hbal h.balanced, avl_map σ h.avl⟩
  · rw [top_map, ← (h.rep.outside : o.root = top t)]
    exact hr.root
  · rw [plug, inorder_map]
    exact h.rep.once.map hσ

end Renaming

/-- **Two nodes of a tree are swapped.** -/
theorem Tree.swapNodes {m : Nat} (h : Tree o t) (hn : n ∈ inorder t) (hm : m ∈ inorder t) (hnot : o.parent n ≠ some m)
    (hplace : o.parent m = some n ∨ Apart o n m) :
    Tree (o.swapNodes n m) (t.map (Equiv.swap n m)) ∧
      ∀ side, (o.swapNodes n m).link n side = (o.link m side).map (Equiv.swap n m) := by
  obtain ⟨o₁, ho₁, hr, hbalance⟩ : ∃ o₁, o₁ = (if o.parent m = some n then o.swapConnected n m
      else if o.parent n = some m then o.swapConnected m n else o.swapApart n m) ∧
        Renamed (Equiv.swap n m) o o₁ (inorder t) ∧ o₁.balance = o.balance := by
    refine ⟨_, rfl, ?_⟩
    by_cases hup : o.parent m = some n
    · rw [if_pos hup]
      exact ⟨swapConnected_renamed h.rep.joined hn hm hup hnot, by simp [swapConnected]⟩
    · rw [if_neg hup, if_neg hnot]
      exact ⟨swapApart_renamed (hplace.resolve_left hup) h.rep.joined hn hm, by simp [swapApart]⟩
  have hswap : o.swapNodes n m = (o₁.setBalance n (o.balance m)).setBalance m (o.balance n) := by
    rw [ho₁, ← hbalance, ho₁]
    rfl
  rw [hswap]
  refine ⟨h.renamed (Equiv.injective _) ⟨hr.root, hr.parent, hr.link⟩ fun c _ => ?_, fun side => ?_⟩
  rotate_left
  · have hlink := hr.link m hm side
    rw [Equiv.swap_apply_right] at hlink
    exact hlink
  rw [setBalance_balance, setBalance_balance, hbalance]
  by_cases hcn : c = n
  · rw [hcn, Equiv.swap_apply_left, if_pos rfl]
  by_cases hcm : c = m
  · subst hcm
    rw [Equiv.swap_apply_right, if_neg (Ne.symm hcn), if_pos rfl]
  · rw [Equiv.swap_apply_of_ne_of_ne hcn hcm, if_neg hcm, if_neg hcn]

/-! ## Removal -/

/-- Down the links of a side, to the last node in order or the first. -/
theorem Shape.descend {up : Option Nat} {fuel : Nat} (h : Shape o up t) (htop : top t = some a) (hfuel : t.height ≤ fuel) :
    ∃ m, BAVL.descend side o fuel a = some m ∧ edge side (inorder t) = some m ∧ o.link m side = none := by
  induction fuel generalizing t a up with
  | zero =>
    cases t with
    | nil => cases htop
    | node _ _ _ => exact absurd hfuel (Nat.not_succ_le_zero _)
  | succ fuel ih =>
    obtain ⟨s, u, rfl⟩ := nodeAt_cases side htop
    obtain ⟨⟨_, hlink, _⟩, hs, _⟩ := shape_nodeAt.mp h
    rw [height_nodeAt] at hfuel
    unfold BAVL.descend
    rw [hlink]
    cases hb : top s with
    | none =>
      rw [top_none hb] at hlink ⊢
      exact ⟨a, rfl, edge_nodeAt_nil side a u, hlink⟩
    | some b =>
      obtain ⟨m, hdescend, hedge, hm⟩ := ih hs hb (by omega)
      exact ⟨m, hdescend, edge_nodeAt side a m u hedge, hm⟩

/-- Every parent but the topmost is a node of the subtree. -/
theorem Shape.parent_mem {up : Option Nat} (h : Shape o up t) (ha : a ∈ inorder t) :
    o.parent a = up ∨ ∃ c ∈ inorder t, o.parent a = some c := by
  induction t generalizing up with
  | nil => cases ha
  | node b l r ihl ihr =>
    obtain ⟨⟨hup, _⟩, hl, hr⟩ := h
    have hb : b ∈ inorder (.node b l r) := List.mem_append_right _ List.mem_cons_self
    rcases List.mem_append.mp ha with hal | har
    · right
      rcases ihl hl hal with hp | ⟨c, hc, hp⟩
      · exact ⟨b, hb, hp⟩
      · exact ⟨c, List.mem_append_left _ hc, hp⟩
    · rcases List.mem_cons.mp har with rfl | har
      · exact .inl hup
      · right
        rcases ihr hr har with hp | ⟨c, hc, hp⟩
        · exact ⟨b, hb, hp⟩
        · exact ⟨c, List.mem_append_right _ (List.mem_cons_of_mem _ hc), hp⟩

section ReplaceSubtree

variable {new : Option Nat}

/-- Without a parent the replacement becomes the root. -/
theorem replaceSubtree_root : (o.replaceSubtree n new).root = if o.parent n = none then new else o.root := by
  cases new <;> simp [BAVL.replaceSubtree]

theorem replaceSubtree_parent {c : Nat} :
    (o.replaceSubtree n new).parent c = if new = some c then o.parent n else o.parent c := by
  cases new <;> simp [BAVL.replaceSubtree, eq_comm]

theorem replaceSubtree_link {c : Nat} :
    (o.replaceSubtree n new).link c side =
      if o.parent n = some c ∧ side = (o.link c true = some n : Bool) then new else o.link c side := by
  cases new <;> simp [BAVL.replaceSubtree]

theorem replaceSubtree_balance : (o.replaceSubtree n new).balance = o.balance := by
  cases new <;> simp [BAVL.replaceSubtree]

end ReplaceSubtree

/-- The one subtree of a node is put in its place. -/
theorem Rep.replaceSubtree {child : BinaryTree Nat} (h : Rep o p (nodeAt side n child .nil)) :
    Rep (o.replaceSubtree n (top child)) p child := by
  have hnodup := h.nodup
  have hapart : ∀ c ∈ inorder (nodeAt side n child .nil), c ∉ around p := fun c hc => h.apart hc
  obtain ⟨hp, hbelow, honce⟩ := h
  obtain ⟨⟨hparent, hlink, _⟩, hchild, _⟩ := shape_nodeAt.mp hbelow
  rw [top_nodeAt] at hp
  have hn : n ∉ around p := hapart n (mem_nodeAt.mpr (.inl rfl))
  have hchildApart : ∀ c ∈ inorder child, c ∉ around p := fun c hc => hapart c (mem_nodeAt.mpr (.inr (.inl hc)))
  refine ⟨?_, ?_, ?_⟩
  · refine hp.relinked (List.nodup_append.mp hnodup).2.1 hn ?_ fun c hc => ⟨?_, fun right => ?_⟩
    · rw [replaceSubtree_root, hparent]
    · rw [replaceSubtree_parent, if_neg fun htop => hchildApart c (top_mem htop) hc]
    · rw [replaceSubtree_link, hparent]
  · refine hchild.moved (nodup_nodeAt.mp (List.nodup_append.mp hnodup).1).2.1 fun c hc => ⟨?_, fun right => ?_⟩
    · rw [replaceSubtree_parent, hparent]
    · rw [replaceSubtree_link, hparent, if_neg fun hc' => hchildApart c hc (parentOf_mem hc'.1)]
  · have hsub : (inorder child ++ around p).Sublist (inorder (nodeAt side n child .nil) ++ around p) := by
      cases side <;> simp [nodeAt, inorder]
    exact (around_perm p child).nodup_iff.mpr (hnodup.sublist hsub)

/-- A node with at most one child gives its place to it, and rebalancing starts at the parent. -/
theorem takeOut_eq {child : Option Nat} {fuel : Nat} (hlink : o.link n side = child) (hother : o.link n (!side) = none) :
    o.takeOut fuel n = match o.parent n with
      | some parent => BAVL.rebalance fuel (o.replaceSubtree n child) parent (o.link parent true = some n) (-1)
      | none => some (o.replaceSubtree n child) := by
  unfold BAVL.takeOut
  cases side with
  | false =>
    have hother : o.link n true = none := hother
    rw [hlink, hother]
    cases child <;> rfl
  | true =>
    have hother : o.link n false = none := hother
    rw [hlink, hother]
    cases child <;> rfl

/-- A node with one subtree at most is taken out, and the rest is balanced in the same order. -/
theorem Tree.takeOut {child : BinaryTree Nat} {fuel : Nat} (h : Tree o (plug p (nodeAt side n child .nil)))
    (hfuel : p.length ≤ fuel) :
    ∃ o' t', o.takeOut fuel n = some o' ∧ Tree o' t' ∧ inorder t' = inorder (plug p child) := by
  obtain ⟨hrep, hbal, havl, hbp, hp⟩ := h.hole
  obtain ⟨⟨hparent, hlink, hother⟩, _⟩ := shape_nodeAt.mp hrep.below
  obtain ⟨_, hbchild, _⟩ := balanced_nodeAt.mp hbal
  obtain ⟨_, havlChild, _⟩ := avl_nodeAt.mp havl
  rw [height_nodeAt, BinaryTree.height, Nat.max_zero] at hbp hp
  have hhole : Hole (o.replaceSubtree n (top child)) p child (child.height + 1) :=
    ⟨hrep.replaceSubtree, hbchild.frame fun c _ => by rw [replaceSubtree_balance], havlChild,
      hbp.frame fun c _ => by rw [replaceSubtree_balance], hp⟩
  rw [takeOut_eq hlink hother, hparent]
  cases p with
  | nil => exact ⟨_, child, rfl, ⟨hhole.rep, hhole.balanced, hhole.avl⟩, rfl⟩
  | cons d p =>
    have hout := hrep.outside
    rw [top_nodeAt] at hout
    have hside := hout.linkSide (hrep.apart (mem_nodeAt.mpr (.inl rfl)))
    have hless : (child.height : Int) = (child.height + 1 : Nat) + (-1) := by omega
    obtain ⟨o', t', hrebalance, htree, horder⟩ := hhole.rebalance hless (by omega) hfuel
    refine ⟨o', t', ?_, htree, horder⟩
    simp only [parentOf, List.head?_cons, Option.map_some, hside]
    exact hrebalance

theorem erase_middle {l₁ l₂ : List Nat} (h : n ∉ l₁) : (l₁ ++ n :: l₂).erase n = l₁ ++ l₂ := by
  rw [List.erase_append_right _ h, List.erase_cons_head]

/-- Taking out a node with a free side ends and leaves the others in their order, balanced. -/
theorem Tree.takeOut_mem {fuel : Nat} (h : Tree o t) (hn : n ∈ inorder t) (hlink : o.link n side = none)
    (hfuel : (inorder t).length < fuel) :
    ∃ o' t', o.takeOut fuel n = some o' ∧ Tree o' t' ∧ inorder t' = (inorder t).erase n := by
  obtain ⟨p, l, r, rfl⟩ := exists_plug hn
  obtain ⟨s, child, hs⟩ : ∃ s u, BinaryTree.node n l r = nodeAt side n s u := nodeAt_cases side rfl
  rw [hs] at h hfuel ⊢
  have hrep := rep_plug.mp h.rep
  obtain ⟨⟨_, hlinkS, _⟩, _⟩ := shape_nodeAt.mp hrep.below
  obtain rfl := top_none (hlinkS.symm.trans hlink)
  rw [← nodeAt_not] at h hfuel ⊢
  have hlength := (around_perm p (nodeAt (!side) n child .nil)).length_eq
  rw [List.length_append] at hlength
  have hp := length_le_around p
  obtain ⟨o', t', htake, htree, horder⟩ := h.takeOut (by omega : p.length ≤ fuel)
  refine ⟨o', t', htake, htree, horder.trans ?_⟩
  have hnodup := h.rep.once
  rw [plug, inorder_plug] at hnodup
  rw [inorder_plug, inorder_plug]
  cases side with
  | false =>
    have hmiddle : before p ++ (inorder (nodeAt (!false) n child .nil) ++ after p) = before p ++ n :: (inorder child ++ after p) := rfl
    rw [hmiddle] at hnodup ⊢
    exact (erase_middle fun hb => (List.nodup_append'.mp hnodup).2.2 hb List.mem_cons_self).symm
  | true =>
    have hmiddle : before p ++ (inorder (nodeAt (!true) n child .nil) ++ after p) = (before p ++ inorder child) ++ n :: after p := by
      simp [nodeAt, inorder]
    rw [hmiddle] at hnodup ⊢
    rw [erase_middle fun hb => (List.nodup_append'.mp hnodup).2.2 hb List.mem_cons_self, List.append_assoc]

/-- Exchanging two neighbours in the order moves nothing else. -/
theorem map_swap_beside {m : Nat} {l₁ l₂ : List Nat} (h : (l₁ ++ m :: n :: l₂).Nodup) :
    (l₁ ++ m :: n :: l₂).map (Equiv.swap n m) = l₁ ++ n :: m :: l₂ := by
  obtain ⟨_, h₂, hdisjoint⟩ := List.nodup_append'.mp h
  obtain ⟨hm, h₂⟩ := List.nodup_cons.mp h₂
  obtain ⟨hn, _⟩ := List.nodup_cons.mp h₂
  have hkeep : ∀ l : List Nat, n ∉ l → m ∉ l → l.map (Equiv.swap n m) = l := fun l hn hm =>
    (List.map_congr_left fun c hc => Equiv.swap_apply_of_ne_of_ne (ne_of_mem_of_not_mem hc hn)
      (ne_of_mem_of_not_mem hc hm)).trans (List.map_id l)
  rw [List.map_append, List.map_cons, List.map_cons, Equiv.swap_apply_right, Equiv.swap_apply_left,
    hkeep l₁ (fun h => hdisjoint h (List.mem_cons_of_mem _ List.mem_cons_self)) (fun h => hdisjoint h List.mem_cons_self),
    hkeep l₂ hn fun h => hm (List.mem_cons_of_mem _ h)]

/-- A node and the last one of its left subtree are apart, or the one is right above the other. -/
theorem Rep.apart_last {l r : BinaryTree Nat} {m : Nat} (h : Rep o p (.node n l r)) (hm : m ∈ inorder l) :
    o.parent n ≠ some m ∧ (o.parent m = some n ∨ Apart o n m) := by
  have hparent := h.below.1.1
  have haround : ∀ c ∈ inorder l, o.parent n ≠ some c := fun c hc hp =>
    h.apart (List.mem_append_left _ hc) (parentOf_mem (hparent.symm.trans hp))
  have hnl : n ∉ inorder l := ((@nodup_nodeAt _ false _ _ _).mp (List.nodup_append.mp h.nodup).1).1.1
  refine ⟨haround m hm, ?_⟩
  rcases h.below.2.1.parent_mem hm with hp | ⟨c, hc, hp⟩
  · exact .inl hp
  · refine .inr ⟨fun hnm => hnl (hnm ▸ hm), haround m hm, fun hpn => ?_, fun e he => ?_⟩
    · obtain rfl := Option.some.inj (hp.symm.trans hpn)
      exact hnl hc
    · obtain rfl := Option.some.inj (hp.symm.trans he)
      exact haround c hc

/-- **Removal.** -/
theorem Tree.remove {fuel : Nat} (h : Tree o t) (hn : n ∈ inorder t) (hfuel : (inorder t).length < fuel) :
    ∃ o' t', o.remove fuel n = some o' ∧ Tree o' t' ∧ inorder t' = (inorder t).erase n := by
  obtain ⟨p, l, r, ht⟩ := exists_plug hn
  have hrep := rep_plug.mp (ht ▸ h.rep)
  obtain ⟨⟨hparent, hleft, hright⟩, hl, hr⟩ := hrep.below
  unfold BAVL.remove
  cases htopL : top l with
  | none =>
    rw [hleft, htopL]
    exact h.takeOut_mem hn (hleft.trans htopL) hfuel
  | some left =>
  cases htopR : top r with
  | none =>
    rw [hleft, hright, htopL, htopR]
    exact h.takeOut_mem hn (hright.trans htopR) hfuel
  | some right =>
    have horder : inorder t = before p ++ (inorder l ++ n :: (inorder r ++ after p)) := by
      rw [ht, inorder_plug, inorder, List.append_assoc, List.cons_append]
    have hheight : l.height ≤ fuel := by
      have hle := height_le_length l
      rw [horder, List.length_append, List.length_append] at hfuel
      omega
    obtain ⟨m, hmax, hedge, hm⟩ := @Shape.descend o left true l _ fuel hl htopL hheight
    obtain ⟨l', hl'⟩ := List.getLast?_eq_some_iff.mp hedge
    have hmem : m ∈ inorder l := edge_mem hedge
    obtain ⟨hnot, hplace⟩ := hrep.apart_last hmem
    have hmt : m ∈ inorder t := by
      rw [horder]
      exact List.mem_append_right _ (List.mem_append_left _ hmem)
    obtain ⟨htree, hlinks⟩ := h.swapNodes hn hmt hnot hplace
    have hbeside : inorder t = (before p ++ l') ++ m :: n :: (inorder r ++ after p) := by
      rw [horder, hl', List.append_assoc, List.append_assoc]
      rfl
    have hnodup : (inorder t).Nodup := h.rep.once
    have hswapped : inorder (t.map (Equiv.swap n m)) = (before p ++ l') ++ n :: m :: (inorder r ++ after p) := by
      rw [inorder_map, hbeside, map_swap_beside (hbeside ▸ hnodup)]
    have hlink : (o.swapNodes n m).link n true = none := by rw [hlinks, hm]; rfl
    have hn' : n ∈ inorder (t.map (Equiv.swap n m)) := hswapped ▸ List.mem_append_right _ List.mem_cons_self
    have hlength : (inorder (t.map (Equiv.swap n m))).length = (inorder t).length := by
      rw [inorder_map, List.length_map]
    obtain ⟨o', t', htake, htree', horder'⟩ := htree.takeOut_mem hn' hlink (hlength ▸ hfuel)
    refine ⟨o', t', ?_, htree', ?_⟩
    · have hmax : o.subtreeMax fuel left = some m := hmax
      rw [hleft, hright, htopL, htopR]
      simp only [hmax, Option.map_some, Option.bind_some]
      exact htake
    · have hsnoc : (before p ++ l') ++ m :: n :: (inorder r ++ after p) =
          ((before p ++ l') ++ [m]) ++ n :: (inorder r ++ after p) := by simp
      have hfirst : n ∉ (before p ++ l') ++ [m] := fun hc =>
        (List.nodup_append'.mp ((hbeside.trans hsnoc) ▸ hnodup)).2.2 hc List.mem_cons_self
      rw [horder', hswapped, erase_middle fun hc => hfirst (List.mem_append_left _ hc), hbeside, hsnoc, erase_middle hfirst,
        List.append_assoc _ [m]]
      rfl

end KiloProxy.Engine.BAVL
