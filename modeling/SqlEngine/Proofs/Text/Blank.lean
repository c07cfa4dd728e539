import SqlEngine.Text.Blank

/-! Texts without blanks. -/

namespace SqlEngine.Text

theorem isBlank_of_range {c : Char} (h : 0x20 < c.toNat ∧ c.toNat < 0x80) : isBlank c = false := by
  obtain ⟨above, below⟩ := h
  unfold isBlank
  simp
  omega

theorem toNat_of_isDigit {c : Char} (digit : c.isDigit = true) : 48 ≤ c.toNat ∧ c.toNat ≤ 57 := by
  rw [Char.isDigit, Bool.and_eq_true, decide_eq_true_eq, decide_eq_true_eq] at digit
  exact ⟨UInt32.le_iff_toNat_le.mp digit.1, UInt32.le_iff_toNat_le.mp digit.2⟩

theorem isBlank_of_isDigit {c : Char} (digit : c.isDigit = true) : isBlank c = false := by
  have range := toNat_of_isDigit digit
  exact isBlank_of_range ⟨by omega, by omega⟩

theorem trimStart_eq_self {cs : List Char} (h : ∀ c ∈ cs.head?, isBlank c = false) :
    trimStart cs = cs := by
  cases cs with
  | nil => rfl
  | cons c cs => rw [trimStart, List.dropWhile_cons_of_neg (by simp [h c rfl])]

theorem trim_eq_self {s : String} (h : ∀ c ∈ s.toList, isBlank c = false) : trim s = s := by
  have front : trimStart s.toList = s.toList :=
    trimStart_eq_self fun c hc => h c (List.mem_of_head? hc)
  have back : trimStart s.toList.reverse = s.toList.reverse :=
    trimStart_eq_self fun c hc => h c (List.mem_reverse.mp (List.mem_of_head? hc))
  rw [trimStart] at back
  rw [trim, front, trimEnd, back, List.reverse_reverse, String.ofList_toList]

end SqlEngine.Text
