import KiloProxy.Text.Kotlin

/-!
# Lists stored in one text

The items stand between separators, and are trimmed and blank ones dropped when the list
is read. Items without a separator that are trimmed already come back as they were written,
and whatever text is read gives such items.
-/

namespace KiloProxy.Text
set_option autoImplicit false

/-- `text.split(sep).map { it.trim() }.filter { it.isNotEmpty() }` -/
def items (sep : Char) (text : Str) : List Str := ((split sep text).map trim).filter fun item => item ≠ []

/-- An item that is read as it was written. -/
structure Item (sep : Char) (item : Str) : Prop where
  nonempty : item ≠ []
  trimmed : trim item = item
  single : sep ∉ item

/-- A text without spaces and separators is an item. -/
theorem Item.of_chars {sep : Char} {item : Str} (hne : item ≠ [])
    (h : ∀ c ∈ item, isWhitespace c = false ∧ c ≠ sep) : Item sep item where
  nonempty := hne
  trimmed := trimBy_eq_self.mpr ⟨fun c hc => (h c (List.mem_of_mem_head? hc)).1,
    fun c hc => (h c (List.mem_of_mem_getLast? hc)).1⟩
  single := fun hmem => (h sep hmem).2 rfl

/-- Items come back as they were written. -/
theorem items_intercalate {sep : Char} {list : List Str} (h : ∀ item ∈ list, Item sep item) :
    items sep ([sep].intercalate list) = list := by
  unfold items
  by_cases hne : list = []
  · subst hne
    rw [List.intercalate_nil]
    rfl
  · have hsplit : split sep ([sep].intercalate list) = list :=
      List.splitOn_intercalate sep (fun item hitem => (h item hitem).single) hne
    have htrim : list.map trim = list := by
      rw [List.map_congr_left fun item hitem => (h item hitem).trimmed, List.map_id']
    rw [hsplit, htrim, List.filter_eq_self]
    exact fun item hitem => decide_eq_true (h item hitem).nonempty

end KiloProxy.Text
