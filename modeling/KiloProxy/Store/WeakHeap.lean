import Mathlib.Data.List.Basic

/-!
# Objects behind weak references

Objects stay in the heap; a weak reference refers to one until it is cleared, and is never
set again. What a reference refers to can only be lost as the heap goes on (`Extends`).

A collector is any sequence of `clear`s. A caller that holds an object keeps it from being
collected, which is a condition on the clears of a run and no part of the heap.
-/

namespace KiloProxy.Store
set_option autoImplicit false

variable {α : Type}

/-- Objects and references by number; a cleared reference is `none`. -/
structure WeakHeap (α : Type) where
  objects : List α
  references : List (Option Nat)

namespace WeakHeap

def empty : WeakHeap α := ⟨[], []⟩

/-- `get()` of a weak reference -/
def referent (h : WeakHeap α) (r : Nat) : Option Nat := h.references[r]?.join

/-- A new object, with its number. -/
def alloc (h : WeakHeap α) (a : α) : Nat × WeakHeap α :=
  (h.objects.length, { h with objects := h.objects ++ [a] })

/-- A new weak reference to an object, with its number. -/
def weaken (h : WeakHeap α) (o : Nat) : Nat × WeakHeap α :=
  (h.references.length, { h with references := h.references ++ [some o] })

/-- The collector clears a reference. -/
def clear (h : WeakHeap α) (r : Nat) : WeakHeap α := { h with references := h.references.set r none }

/-- `h'` comes after `h`. -/
structure Extends (h h' : WeakHeap α) : Prop where
  objects : ∀ (o : Nat) (a : α), h.objects[o]? = some a → h'.objects[o]? = some a
  length : h.references.length ≤ h'.references.length
  referent : ∀ (r o : Nat), r < h.references.length → h'.referent r = some o → h.referent r = some o

theorem Extends.refl (h : WeakHeap α) : Extends h h := ⟨fun _ _ ho => ho, Nat.le_refl _, fun _ _ _ hr => hr⟩

/-- A new object leaves the others. -/
theorem alloc_extends (h : WeakHeap α) (a : α) : Extends h (h.alloc a).2 where
  objects := fun o b ho => by
    obtain ⟨hlt, rfl⟩ := List.getElem?_eq_some_iff.mp ho
    exact List.getElem?_append_left hlt ▸ ho
  length := Nat.le_refl _
  referent := fun _ _ _ hr => hr

theorem alloc_object (h : WeakHeap α) (a : α) : (h.alloc a).2.objects[(h.alloc a).1]? = some a :=
  List.getElem?_concat_length

/-- The other references stay as they are. -/
theorem referent_weaken_old {h : WeakHeap α} {o r : Nat} (hr : r < h.references.length) :
    (h.weaken o).2.referent r = h.referent r :=
  congrArg Option.join (List.getElem?_append_left hr)

/-- A new weak reference refers to its object. -/
theorem referent_weaken_new (h : WeakHeap α) (o : Nat) : (h.weaken o).2.referent (h.weaken o).1 = some o :=
  congrArg Option.join List.getElem?_concat_length

/-- A new weak reference leaves the others. -/
theorem weaken_extends (h : WeakHeap α) (o : Nat) : Extends h (h.weaken o).2 where
  objects := fun _ _ ho => ho
  length := by simp [weaken]
  referent := fun r _ hr ho => (referent_weaken_old hr).symm.trans ho

/-- A cleared reference refers to nothing. -/
theorem referent_clear_self (h : WeakHeap α) (r : Nat) : (h.clear r).referent r = none := by
  unfold referent clear
  by_cases hr : r < h.references.length
  · rw [List.getElem?_set_self hr]
    rfl
  · rw [List.getElem?_eq_none (by simpa using hr)]
    rfl

/-- Clearing a reference leaves the others. -/
theorem referent_clear_ne {h : WeakHeap α} {r q : Nat} (hne : q ≠ r) : (h.clear r).referent q = h.referent q := by
  unfold referent clear
  rw [List.getElem?_set_ne hne.symm]

/-- A collection only takes referents away. -/
theorem clear_extends (h : WeakHeap α) (r : Nat) : Extends h (h.clear r) where
  objects := fun _ _ ho => ho
  length := by simp [clear]
  referent := fun q o _ ho => by
    by_cases he : q = r
    · rw [he, referent_clear_self] at ho
      cases ho
    · rwa [referent_clear_ne he] at ho

/-- The reference exists, and what it refers to, as long as it does, is `a`. -/
structure Refers (h : WeakHeap α) (r : Nat) (a : α) : Prop where
  lt : r < h.references.length
  object : ∀ o, h.referent r = some o → h.objects[o]? = some a

/-- What a reference once referred to it can only lose. -/
theorem Refers.mono {h h' : WeakHeap α} {r : Nat} {a : α} (hr : Refers h r a) (hext : Extends h h') :
    Refers h' r a where
  lt := Nat.lt_of_lt_of_le hr.lt hext.length
  object := fun o ho => hext.objects o a (hr.object o (hext.referent r o hr.lt ho))

/-- A reference is made for an object. -/
theorem weaken_refers {h : WeakHeap α} {o : Nat} {a : α} (ho : h.objects[o]? = some a) :
    Refers (h.weaken o).2 (h.weaken o).1 a where
  lt := by simp [weaken]
  object := fun p hp => by
    rw [referent_weaken_new] at hp
    obtain rfl := Option.some.inj hp
    exact ho

end WeakHeap

end KiloProxy.Store
