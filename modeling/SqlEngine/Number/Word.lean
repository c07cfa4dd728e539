/-! The ranges of words of sixty-four bits, in which counts and integer values are held. -/

namespace SqlEngine

def maxWord : Nat := 0xFFFFFFFFFFFFFFFF

def signedWord? (i : Int) : Option Int64 :=
  if Int64.minValue.toInt ≤ i ∧ i ≤ Int64.maxValue.toInt then some (.ofInt i) else none

theorem signedWord?_toInt (n : Int64) : signedWord? n.toInt = some n := by
  have lower := Int64.le_toInt n
  have upper := Int64.toInt_lt n
  have : Int64.minValue.toInt ≤ n.toInt ∧ n.toInt ≤ Int64.maxValue.toInt := by
    simp only [Int64.toInt_minValue, Int64.toInt_maxValue]
    omega
  rw [signedWord?, if_pos this, Int64.ofInt_toInt]

end SqlEngine
