import KiloProxy.Engine.BavlShape

/-!
# Insertion into the tree of `BAVL.h`

A change is made at a place, below which the height is then off by one; what rebalances the tree
goes up from there, and the tree below the place it has come to is balanced at every step.

`Hole` is the invariant of the way up: the tree below the place is balanced, and the balances
around it expect a subtree whose height is one less or one more. Each turn of the loop ends with
a tree (`Tree`) or with a hole one node higher. The way down (`Found`, `Between`) keeps to the
values on both sides of the place, so the new leaf stands where its value belongs.
-/

namespace KiloProxy.Engine.BAVL
set_option autoImplicit false
open KiloProxy.Store

variable {o o' : BAVL} {a b n : Nat} {side : Bool} {s t u : BinaryTree Nat} {p : Path Nat} {d : Turn Nat}

/-! ## Rebalancing -/

/-- The whole tree, balanced. -/
structure Tree (o : BAVL) (t : BinaryTree Nat) : Prop where
  rep : Rep o [] t
  balanced : Balanced o t
  avl : Avl t

/-- A tree that is balanced but for a place, where the balance of the others expects a subtree of this height. -/
structure Hole (o : BAVL) (p : Path Nat) (t : BinaryTree Nat) (height : Nat) : Prop where
  rep : Rep o p t
  balanced : Balanced o t
  avl : Avl t
  balancedAround : BalancedAround o p height
  avlAround : AvlAround p height

/-- The subtree has the height that is expected. -/
theorem Hole.tree (h : Hole o p t t.height) : Tree o (plug p t) := by
  induction p generalizing t with
  | nil => exact ⟨h.rep, h.balanced, h.avl⟩
  | cons d p ih =>
    obtain ⟨hbal, hbother, hbp⟩ := h.balancedAround
    obtain ⟨hclose, hother, hp⟩ := h.avlAround
    refine ih ⟨rep_cons.mp h.rep, balanced_nodeAt.mpr ⟨hbal, h.balanced, hbother⟩, avl_nodeAt.mpr ⟨hclose, h.avl, hother⟩, ?_, ?_⟩
    · rw [height_nodeAt]; exact hbp
    · rw [height_nodeAt]; exact hp

/-- Back to a place of a balanced tree. -/
theorem Tree.hole (h : Tree o (plug p t)) : Hole o p t t.height := by
  induction p generalizing t with
  | nil => exact ⟨h.rep, h.balanced, h.avl, trivial, trivial⟩
  | cons d p ih =>
    obtain ⟨hrep, hbal, havl, hbp, hp⟩ := ih h
    obtain ⟨hd, hs, hbother⟩ := balanced_nodeAt.mp hbal
    obtain ⟨hclose, havls, hother⟩ := avl_nodeAt.mp havl
    rw [height_nodeAt] at hbp hp
    exact ⟨rep_cons.mpr hrep, hs, havls, ⟨hd, hbother, hbp⟩, hclose, hother, hp⟩

/-- A subtree with the path to it is the whole tree. -/
theorem rep_plug : Rep o [] (plug p t) ↔ Rep o p t := by
  induction p generalizing t with
  | nil => exact Iff.rfl
  | cons d p ih => exact ih.trans rep_cons.symm

/-- Counted from its side, a balance is how much higher the other subtree is. -/
theorem optneg_tilt (side : Bool) (h k : Nat) : optneg (tilt side h k) side = (k : Int) - h := by
  cases side with
  | false => rfl
  | true => exact Int.neg_sub _ _

/-- Growth by `delta` on a side shifts the balance by as much. -/
theorem tilt_sub_optneg (side : Bool) {h h' : Nat} (k : Nat) {delta : Int} (hheight : (h' : Int) = h + delta) :
    tilt side h k - optneg delta side = tilt side h' k := by
  cases side <;> simp only [tilt, optneg] <;> grind

/-- **Rebalancing.** A subtree changed its height by `deltac`, and the whole tree is balanced again, in the same order. -/
theorem Hole.rebalance {height fuel : Nat} {deltac : Int} (h : Hole o (d :: p) s height)
    (hheight : (s.height : Int) = height + deltac) (hdelta : -1 ≤ deltac ∧ deltac ≤ 1) (hfuel : p.length < fuel) :
    ∃ o' t', o.rebalance fuel d.node d.side deltac = some o' ∧ Tree o' t' ∧ inorder t' = inorder (plug (d :: p) s) := by
  induction fuel generalizing o d p s height deltac with
  | zero => omega
  | succ fuel ih =>
    obtain ⟨hrep, hbal, havl, ⟨hbd, hbother, hbp⟩, ⟨hclose, hother, hp⟩⟩ := h
    have hopt : optneg (o.balance d.node) d.side = (d.other.height : Int) - height := by rw [hbd, optneg_tilt]
    have hsmall : -1 ≤ o.balance d.node ∧ o.balance d.node ≤ 1 := by
      rw [hbd]
      cases d.side <;> simp only [tilt] <;> omega
    unfold BAVL.rebalance
    rw [if_neg (by omega), hopt]
    by_cases hzero : deltac = 0
    · rw [if_pos hzero]
      have heq : s.height = height := by omega
      exact ⟨o, _, rfl, Hole.tree ⟨hrep, hbal, havl, ⟨heq ▸ hbd, hbother, heq ▸ hbp⟩, ⟨heq ▸ hclose, hother, heq ▸ hp⟩⟩, rfl⟩
    · rw [if_neg hzero]
      -- the height of the tree below the node, before the transformations
      obtain ⟨delta, hd⟩ : ∃ delta, delta = max deltac ((d.other.height : Int) - height) - max 0 ((d.other.height : Int) - height) :=
        ⟨_, rfl⟩
      have hgrown : (max s.height d.other.height : Int) = max height d.other.height + delta := by omega
      have hrep₁ : Rep (o.setBalance d.node (o.balance d.node - optneg deltac d.side)) p
          (nodeAt d.side d.node s d.other) := (rep_cons.mp hrep).frame rfl rfl rfl
      obtain ⟨⟨hnodeS, hnodeOther⟩, _⟩ := nodup_nodeAt.mp (List.nodup_append.mp hrep₁.nodup).1
      have hsame : ∀ l : List Nat, d.node ∉ l →
          ∀ c ∈ l, (o.setBalance d.node (o.balance d.node - optneg deltac d.side)).balance c = o.balance c :=
        fun l hl c hc => by rw [setBalance_balance, if_neg (ne_of_mem_of_not_mem hc hl)]
      have hbal₁ : Balanced (o.setBalance d.node (o.balance d.node - optneg deltac d.side)) (nodeAt d.side d.node s d.other) := by
        refine balanced_nodeAt.mpr ⟨?_, hbal.frame (hsame _ hnodeS), hbother.frame (hsame _ hnodeOther)⟩
        rw [setBalance_balance, if_pos rfl, hbd, tilt_sub_optneg _ _ hheight]
      obtain ⟨o₂, t', b, change, htransform, htop, hheight', hsettled, hchange⟩ :=
        transform_spec delta hrep₁ hbal₁ havl hother (by omega)
      have hless := hsettled.height
      rw [height_nodeAt] at hless
      have hnew : -1 ≤ delta + change ∧ delta + change ≤ 1 := by omega
      simp only [← hd]
      rw [if_neg (by omega), htransform, Option.bind_some]
      simp only []
      rw [if_neg (by omega), hsettled.rep.below.top_parent htop]
      have horder : inorder (plug p t') = inorder (plug (d :: p) s) := by
        rw [plug, inorder_plug, inorder_plug, hsettled.order]
      cases p with
      | nil => exact ⟨o₂, t', rfl, ⟨hsettled.rep, hsettled.balanced, hsettled.avl⟩, horder⟩
      | cons d' p =>
        have hoff : ∀ c ∈ around (d' :: p), o₂.balance c = o.balance c := fun c hc => by
          have hnot : c ∉ inorder (nodeAt d.side d.node s d.other) := fun h => hrep₁.apart h hc
          rw [hsettled.others c hnot]
          exact hsame [c] (fun h => hnot (mem_nodeAt.mpr (.inl (List.mem_singleton.mp h).symm))) c List.mem_cons_self
        have hout := hsettled.rep.outside
        rw [htop] at hout
        have hside := hout.linkSide (hsettled.rep.apart (top_mem htop))
        have hhole : Hole o₂ (d' :: p) t' (max height d.other.height + 1) :=
          ⟨hsettled.rep, hsettled.balanced, hsettled.avl, hbp.frame hoff, hp⟩
        have hgrew : (t'.height : Int) = (max height d.other.height + 1 : Nat) + (delta + change) := by omega
        obtain ⟨o₃, t₃, hrebalance, htree, horder₃⟩ := ih hhole hgrew hnew (Nat.lt_of_succ_lt_succ hfuel)
        refine ⟨o₃, t₃, ?_, htree, horder₃.trans horder⟩
        simp only [parentOf, List.head?_cons, Option.map_some, hside]
        exact hrebalance

/-! ## The way down -/

section Values

variable {α : Type} [LinearOrder α] {value : Nat → α} {v : α}

/-- All nodes before the place have a lesser value, all after it a greater one. -/
def Between (value : Nat → α) (v : α) (p : Path Nat) : Prop :=
  (∀ a ∈ before p, value a < v) ∧ ∀ a ∈ after p, v < value a

/-- The nodes are in the order of their values. -/
abbrev Sorted (value : Nat → α) (nodes : List Nat) : Prop := nodes.Pairwise fun a b => value a < value b

/-- A step down, to the side on which the value is. -/
theorem Between.down {c : Nat} (h : Between value v p)
    (hsorted : Sorted value (inorder (plug p (nodeAt (decide (value c < v)) c s u)))) (hne : v ≠ value c) :
    Between value v (⟨decide (value c < v), c, u⟩ :: p) := by
  rw [inorder_plug] at hsorted
  obtain ⟨_, hsorted, _⟩ := List.pairwise_append.mp hsorted
  obtain ⟨hsorted, _⟩ := List.pairwise_append.mp hsorted
  by_cases hlt : value c < v
  · rw [decide_eq_true hlt] at hsorted ⊢
    -- the other subtree is on the left
    obtain ⟨_, _, hleft⟩ := List.pairwise_append.mp hsorted
    refine ⟨fun a ha => ?_, h.2⟩
    rcases List.mem_append.mp ha with ha | ha
    · exact h.1 a ha
    · rcases List.mem_append.mp ha with ha | ha
      · exact (hleft a ha c List.mem_cons_self).trans hlt
      · obtain rfl := List.mem_singleton.mp ha
        exact hlt
  · have hgt : v < value c := lt_of_le_of_ne (not_lt.mp hlt) hne
    rw [decide_eq_false hlt] at hsorted ⊢
    obtain ⟨_, hright, _⟩ := List.pairwise_append.mp hsorted
    obtain ⟨hright, _⟩ := List.pairwise_cons.mp hright
    refine ⟨fun a ha => h.1 a (List.append_nil (before p) ▸ ha), fun a ha => ?_⟩
    rcases List.mem_cons.mp ha with rfl | ha
    · exact hgt
    · rcases List.mem_append.mp ha with ha | ha
      · exact hgt.trans (hright a ha)
      · exact h.2 a ha

/-- What is found on the way down. -/
inductive Found (value : Nat → α) (v : α) (whole : BinaryTree Nat) : Except Nat (Nat × Bool) → Prop where
  | equal {c : Nat} : c ∈ inorder whole → value c = v → Found value v whole (.error c)
  | place {d : Turn Nat} {p : Path Nat} : whole = plug (d :: p) .nil → Between value v (d :: p) →
      Found value v whole (.ok (d.node, d.side))

/-- The descent ends, at the node of an equal value or under the leaf where the value belongs. -/
theorem Shape.findPlace {up : Option Nat} {c fuel : Nat} (h : Shape o up t) (htop : top t = some c)
    (hsorted : Sorted value (inorder (plug p t))) (hbetween : Between value v p) (hfuel : t.height ≤ fuel) :
    ∃ found, o.findPlace value v fuel c = some found ∧ Found value v (plug p t) found := by
  induction fuel generalizing p t c up with
  | zero =>
    cases t with
    | nil => cases htop
    | node _ _ _ => exact absurd hfuel (Nat.not_succ_le_zero _)
  | succ fuel ih =>
    unfold BAVL.findPlace
    by_cases heq : v = value c
    · rw [if_pos heq]
      exact ⟨_, rfl, .equal ((around_perm p t).mem_iff.mpr (List.mem_append_left _ (top_mem htop))) heq.symm⟩
    rw [if_neg heq]
    simp only []
    obtain ⟨s, u, rfl⟩ := nodeAt_cases (decide (value c < v)) htop
    obtain ⟨⟨_, hlink, _⟩, hs, _⟩ := shape_nodeAt.mp h
    rw [hlink]
    have hnext := hbetween.down hsorted heq
    cases hb : top s with
    | none =>
      obtain rfl := top_none hb
      exact ⟨_, rfl, .place rfl hnext⟩
    | some b =>
      rw [height_nodeAt] at hfuel
      have hsorted' : Sorted value (inorder (plug (⟨decide (value c < v), c, u⟩ :: p) s)) := hsorted
      have hrest := ih hs hb hsorted' hnext (by omega)
      exact hrest

/-- A node next to the place of a value: an equal one, or else the greatest lesser or the least greater one. -/
def Near (value : Nat → α) (v : α) (nodes : List Nat) : Option Nat → Prop
  | none => nodes = []
  | some c =>
    c ∈ nodes ∧ (value c = v ∨ (∀ e ∈ nodes, value e ≠ v) ∧
      (value c < v ∧ (∀ e ∈ nodes, value e < v → value e ≤ value c) ∨
        v < value c ∧ ∀ e ∈ nodes, v < value e → value c ≤ value e))

/-- A value that fits strictly between its neighbours is nowhere in the tree. -/
theorem Between.absent {nodes : List Nat} (h : Between value v p) (hnodes : nodes = before p ++ after p) :
    ∀ e ∈ nodes, value e ≠ v := by
  intro e he
  rcases List.mem_append.mp (hnodes ▸ he) with he | he
  · exact (h.1 e he).ne
  · exact (h.2 e he).ne'

/-- The node below which a value is not is next to its place. -/
theorem Between.near (h : Between value v (d :: p)) (hsorted : Sorted value (inorder (plug (d :: p) .nil))) :
    Near value v (inorder (plug (d :: p) .nil)) (some d.node) := by
  have horder : inorder (plug (d :: p) .nil) = before (d :: p) ++ after (d :: p) := inorder_plug _ _
  rw [horder] at hsorted ⊢
  have habsent := h.absent rfl
  obtain ⟨hbefore, hafter, _⟩ := List.pairwise_append.mp hsorted
  obtain ⟨hlt, hgt⟩ := h
  obtain ⟨side, c, u⟩ := d
  cases side with
  | true =>
    have hmem : c ∈ before (⟨true, c, u⟩ :: p) := List.mem_append_right _ (List.mem_append_right _ List.mem_cons_self)
    refine ⟨List.mem_append_left _ hmem, .inr ⟨habsent, .inl ⟨hlt c hmem, fun e he hev => ?_⟩⟩⟩
    rcases List.mem_append.mp he with he | he
    · -- the node is the last one before the place
      have hlast : before (⟨true, c, u⟩ :: p) = (before p ++ inorder u) ++ [c] := (List.append_assoc _ _ _).symm
      rw [hlast] at hbefore he
      rcases List.mem_append.mp he with he | he
      · exact ((List.pairwise_append.mp hbefore).2.2 e he c List.mem_cons_self).le
      · exact (List.mem_singleton.mp he ▸ le_refl (value e))
    · exact absurd hev (hgt e he).asymm
  | false =>
    have hmem : c ∈ after (⟨false, c, u⟩ :: p) := List.mem_cons_self
    refine ⟨List.mem_append_right _ hmem, .inr ⟨habsent, .inr ⟨hgt c hmem, fun e he hev => ?_⟩⟩⟩
    rcases List.mem_append.mp he with he | he
    · exact absurd hev (hlt e he).asymm
    · rcases List.mem_cons.mp he with rfl | he
      · exact le_refl _
      · exact ((List.pairwise_cons.mp hafter).1 e he).le

/-! ## Insertion -/

/-- A node without children is put at an empty place. -/
theorem Hole.initNode (h : Hole o (d :: p) .nil 0) (hn : n ∉ around (d :: p)) :
    Hole ((o.setLink d.node d.side (some n)).initNode n (some d.node)) (d :: p) (.node n .nil .nil) 0 := by
  obtain ⟨⟨⟨⟨hparent, hlink, hother⟩, hshape, hp⟩, _, honce⟩, _, _, hbal, havl⟩ := h
  obtain ⟨hnode, hrest⟩ : n ≠ d.node ∧ n ∉ inorder d.other ++ around p := by
    rwa [around, List.mem_cons, not_or] at hn
  have hnd : d.node ≠ n := Ne.symm hnode
  have honce' : (around (d :: p)).Nodup := (around_perm (d :: p) .nil).nodup_iff.mp honce
  have hsame : Same o ((o.setLink d.node d.side (some n)).initNode n (some d.node)) (inorder d.other ++ around p) := by
    intro c hc
    have hcn : c ≠ n := ne_of_mem_of_not_mem hc hrest
    have hcd : c ≠ d.node := ne_of_mem_of_not_mem hc (List.nodup_cons.mp honce').1
    exact ⟨by simp [BAVL.initNode, hcn], fun side => by simp [BAVL.initNode, hcn, hcd]⟩
  refine ⟨⟨⟨⟨?_, ?_, ?_⟩, hshape.frame fun c hc => hsame c (List.mem_append_left _ hc),
      hp.frame (fun c hc => hsame c (List.mem_append_right _ hc)) rfl⟩, ⟨⟨?_, ?_, ?_⟩, trivial, trivial⟩, ?_⟩,
    ⟨?_, trivial, trivial⟩, ⟨⟨Nat.zero_le _, Nat.zero_le _⟩, trivial, trivial⟩, ?_, havl⟩
  · simp [BAVL.initNode, hnd, hparent]
  · simp [BAVL.initNode, hnd, top]
  · simp [BAVL.initNode, hnd, hother]
  · simp [BAVL.initNode, parentOf]
  · simp [BAVL.initNode, top]
  · simp [BAVL.initNode, top]
  · refine (around_perm (d :: p) _).nodup_iff.mpr ?_
    exact List.nodup_cons.mpr ⟨hn, honce'⟩
  · simp [BAVL.initNode, tilt]
  · refine hbal.frame fun c hc => ?_
    simp [BAVL.initNode, ne_of_mem_of_not_mem hc hn]

/-- The first node. -/
theorem tree_initNode : Tree (BAVL.initNode { o with root := some n } n none) (.node n .nil .nil) := by
  refine ⟨⟨rfl, ⟨⟨?_, ?_, ?_⟩, trivial, trivial⟩, List.nodup_singleton n⟩, ⟨?_, trivial, trivial⟩,
    ⟨⟨Nat.zero_le _, Nat.zero_le _⟩, trivial, trivial⟩⟩
  · simp [BAVL.initNode, parentOf]
  · simp [BAVL.initNode, top]
  · simp [BAVL.initNode, top]
  · simp [BAVL.initNode, tilt]

/-- A node is in its place among the others. -/
structure Inserted (value : Nat → α) (n : Nat) (nodes nodes' : List Nat) : Prop where
  absent : ∀ e ∈ nodes, value e ≠ value n
  perm : nodes'.Perm (n :: nodes)
  sorted : Sorted value nodes'

/-- A leaf in that place keeps the values in order. -/
theorem Between.inserted (h : Between value (value n) p) (hsorted : Sorted value (inorder (plug p .nil))) :
    Inserted value n (inorder (plug p .nil)) (inorder (plug p (.node n .nil .nil))) := by
  rw [inorder_plug] at hsorted ⊢
  rw [inorder_plug]
  obtain ⟨hbefore, hafter, hacross⟩ := List.pairwise_append.mp hsorted
  refine ⟨h.absent rfl, List.perm_middle, List.pairwise_append.mpr ⟨hbefore, ?_, ?_⟩⟩
  · exact List.pairwise_cons.mpr ⟨h.2, hafter⟩
  · intro a ha b hb
    rcases List.mem_cons.mp hb with rfl | hb
    · exact h.1 a ha
    · exact hacross a ha b hb

/-- **Insertion.** The node is put in its place unless there is an equal one, and either way one next to the place is
given. -/
theorem Tree.insert {fuel : Nat} (h : Tree o t) (hsorted : Sorted value (inorder t)) (hn : n ∉ inorder t)
    (hfuel : (inorder t).length < fuel) :
    ∃ inserted ref o' t', o.insert value fuel n = some (inserted, ref, o') ∧ Near value (value n) (inorder t) ref ∧
      Tree o' t' ∧ (inserted = false → (∃ e ∈ inorder t, value e = value n) ∧ t' = t) ∧
        (inserted = true → Inserted value n (inorder t) (inorder t')) := by
  have hroot : o.root = top t := h.rep.outside
  unfold BAVL.insert
  cases htop : top t with
  | none =>
    obtain rfl := top_none htop
    rw [hroot, htop]
    refine ⟨true, none, _, _, rfl, rfl, tree_initNode, nofun, fun _ => ⟨nofun, List.Perm.refl _, List.pairwise_singleton _ _⟩⟩
  | some c =>
    have hheight := height_le_length t
    obtain ⟨found, hplace, hfound⟩ := @Shape.findPlace o t [] _ _ value (value n) none c fuel h.rep.below htop hsorted
      ⟨nofun, nofun⟩ (by omega)
    rw [hroot, htop]
    simp only [hplace, Option.bind_some]
    cases hfound with
    | @equal e he hv =>
      exact ⟨false, some e, o, t, rfl, ⟨he, .inl hv⟩, h, fun _ => ⟨⟨e, he, hv⟩, rfl⟩, nofun⟩
    | @place d p ht hbetween =>
      rw [plug] at ht
      subst ht
      have hhole : Hole o (d :: p) .nil 0 := h.hole
      have hperm := around_perm (d :: p) .nil
      have hnaround : n ∉ around (d :: p) := fun hc => hn (hperm.mem_iff.mpr hc)
      have hlength : p.length < fuel := by
        have hp := length_le_around (d :: p)
        have hsize : (inorder (plug (d :: p) .nil)).length = (around (d :: p)).length := hperm.length_eq
        rw [List.length_cons] at hp
        omega
      obtain ⟨o', t', hrebalance, htree, horder⟩ := (hhole.initNode hnaround).rebalance (Int.zero_add 1).symm (by omega) hlength
      refine ⟨true, some d.node, o', t', ?_, hbetween.near hsorted, htree, nofun, fun _ => ?_⟩
      · simp only [hrebalance, Option.map_some]
      · rw [horder]
        exact hbetween.inserted hsorted

end Values

end KiloProxy.Engine.BAVL
