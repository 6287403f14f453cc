/-!
Sums and differences of words that stop at the ends of the range instead of wrapping.
-/

namespace BlockSync

/-- The sum, or the greatest word if the sum is none. -/
def satAdd (a b : UInt32) : UInt32 := UInt32.ofNat (min (a.toNat + b.toNat) (UInt32.size - 1))

def satSub (a b : UInt32) : UInt32 := UInt32.ofNat (a.toNat - b.toNat)

theorem toNat_satAdd (a b : UInt32) :
    (satAdd a b).toNat = min (a.toNat + b.toNat) (UInt32.size - 1) := by
  simp only [satAdd, UInt32.toNat_ofNat', UInt32.size]
  omega

theorem toNat_satSub (a b : UInt32) : (satSub a b).toNat = a.toNat - b.toNat := by
  have := a.toNat_lt
  simp only [satSub, UInt32.toNat_ofNat']
  omega

theorem toNat_min (a b : UInt32) : (min a b).toNat = min a.toNat b.toNat := by
  change (if a ≤ b then a else b).toNat = _
  by_cases h : a ≤ b
  · rw [if_pos h, Nat.min_eq_left (UInt32.le_iff_toNat_le.mp h)]
  · have hlt := UInt32.lt_iff_toNat_lt.mp (UInt32.not_le.mp h)
    rw [if_neg h, Nat.min_eq_right (Nat.le_of_lt hlt)]

end BlockSync
