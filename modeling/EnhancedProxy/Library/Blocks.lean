import Mathlib.Data.Nat.ModEq

/-! Blocks of equal width on a ring: which aligned blocks fall on the same slots. -/

namespace Blocks

/-- The block of the ring that an index falls on, counted in blocks from the start of the ring. -/
def slot (width blocks i : Nat) : Nat := i / width % blocks

variable {width blocks : Nat}

/-- Indices on one slot of the ring fall on one block of it. -/
theorem slot_eq_of_mod_eq {i j : Nat} (same : i % (width * blocks) = j % (width * blocks)) :
    slot width blocks i = slot width blocks j := by
  -- Dividing the position on the ring by the width gives the block.
  rw [slot, slot, ← Nat.mod_mul_right_div_self, same, Nat.mod_mul_right_div_self]

/-- Every index of an aligned block falls on the block its start falls on. -/
theorem slot_of_mem {a i : Nat} (positive : 0 < width) (aligned : width ∣ a) (low : a ≤ i)
    (high : i < a + width) : slot width blocks i = slot width blocks a := by
  obtain ⟨k, rfl⟩ := aligned
  -- The start is a multiple of the width, and the index is less than one width past it.
  have quotient : i / width = k := by
    rw [Nat.div_eq_iff positive]
    constructor
    · rw [Nat.mul_comm]; exact low
    · rw [Nat.mul_comm]; omega
  rw [slot, slot, quotient, Nat.mul_div_cancel_left k positive]

/-- Within the first lap, indices on one block of the ring lie in one block of the line. -/
theorem div_eq_of_slot_eq {i j : Nat} (positive : 0 < width) (lapI : i < width * blocks)
    (lapJ : j < width * blocks) (same : slot width blocks i = slot width blocks j) :
    i / width = j / width := by
  -- In the first lap, the remainder changes no quotient.
  have boundI : i / width < blocks :=
    (Nat.div_lt_iff_lt_mul positive).mpr (by rwa [Nat.mul_comm] at lapI)
  have boundJ : j / width < blocks :=
    (Nat.div_lt_iff_lt_mul positive).mpr (by rwa [Nat.mul_comm] at lapJ)
  rw [slot, slot, Nat.mod_eq_of_lt boundI, Nat.mod_eq_of_lt boundJ] at same
  exact same

/-- Two indices of one aligned block on one slot of the ring are the same index. -/
theorem eq_of_mod_eq {a i j : Nat} (fits : 0 < blocks) (lowI : a ≤ i) (highI : i < a + width)
    (lowJ : a ≤ j) (highJ : j < a + width) (same : i % (width * blocks) = j % (width * blocks)) :
    i = j := by
  -- They are less than one width apart, and a width is at most a lap.
  have lap : width ≤ width * blocks := Nat.le_mul_of_pos_right width fits
  rcases Nat.lt_trichotomy i j with before | equal | after
  · exact absurd (Nat.sub_mod_eq_zero_of_mod_eq same.symm) (by
      rw [Nat.mod_eq_of_lt (by omega)]; omega)
  · exact equal
  · exact absurd (Nat.sub_mod_eq_zero_of_mod_eq same) (by
      rw [Nat.mod_eq_of_lt (by omega)]; omega)

end Blocks
