import Mathlib.Order.Defs.LinearOrder
import Nullalis.Base.Bytes

/-!
# The order of byte strings

Byte strings are ordered like words in a dictionary (`std.mem.lessThan`).
-/

namespace ByteOrder

scoped instance : LinearOrder Bytes where
  le_refl := List.le_refl
  le_trans _ _ _ := List.le_trans
  lt_iff_le_not_ge first second := by
    constructor
    · intro less
      exact ⟨List.le_of_lt less, List.not_le.mpr less⟩
    · intro order
      exact List.not_le.mp order.2
  le_antisymm _ _ := List.le_antisymm
  le_total := List.le_total
  toDecidableEq := instDecidableEqList
  toDecidableLE := inferInstance
  toDecidableLT := inferInstance
  compare first second := compareOfLessAndEq first second
  compare_eq_compareOfLessAndEq _ _ := rfl

end ByteOrder
