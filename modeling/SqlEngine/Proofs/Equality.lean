import SqlEngine.Value

/-! The equality of values. It is symmetric. Null and the doubles that are not numbers differ from
themselves, and a value that does so differs from every value. -/

namespace SqlEngine

namespace Binary64

theorem eq_iff {x y : Binary64} :
    x.eq y = true ↔ x.isNaN = false ∧ y.isNaN = false ∧ x.rank = y.rank := by
  unfold eq compare?
  cases x.isNaN <;> cases y.isNaN <;> simp

theorem eq_comm (x y : Binary64) : x.eq y = y.eq x := by
  rw [Bool.eq_iff_iff, eq_iff, eq_iff]
  constructor <;> rintro ⟨hx, hy, same⟩ <;> exact ⟨hy, hx, same.symm⟩

theorem eq_self_iff {x : Binary64} : x.eq x = true ↔ x.isNaN = false := by
  simp [eq_iff]

theorem eq_of_isNaN {x : Binary64} (h : x.isNaN = true) (y : Binary64) : x.eq y = false := by
  rw [← Bool.not_eq_true, eq_iff]
  simp [h]

end Binary64

namespace Value

theorem equals_comm (v w : Value) : v.equals w = w.equals v := by
  cases v <;> cases w <;>
    first
      | rfl
      | exact Binary64.eq_comm _ _
      | simp only [equals, characters?, Bool.beq_comm]

theorem equals_of_self {v : Value} (h : v.equals v = false) (w : Value) : v.equals w = false := by
  cases v with
  | null => exact equals_null_left w
  | real x =>
    have undefined : x.isNaN = true := by
      simpa [equals, ← Bool.not_eq_true, Binary64.eq_self_iff] using h
    cases w <;> first | rfl | exact Binary64.eq_of_isNaN undefined _
  | boolean b => simp [equals] at h
  | integer n => simp [equals] at h
  | text s => simp [equals, characters?] at h
  | date s => simp [equals, characters?] at h

end Value
end SqlEngine
