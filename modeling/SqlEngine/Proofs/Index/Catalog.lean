import SqlEngine.Index.Build

/-! Looking up an index after others were built or dropped. -/

namespace SqlEngine.Index.Catalog

theorem find?_filter_of_imp {α : Type} {p q : α → Bool} (kept : ∀ a, q a = true → p a = true)
    (xs : List α) : (xs.filter p).find? q = xs.find? q := by
  rw [List.find?_filter]
  congr 1
  funext a
  cases found : q a with
  | false => simp
  | true => simp [kept a found]

theorem find?_filter_eq_none {α : Type} {p q : α → Bool} (gone : ∀ a, q a = true → p a = false)
    (xs : List α) : (xs.filter p).find? q = none := by
  rw [List.find?_eq_none]
  intro a ha found
  simpa [gone a found] using (List.mem_filter.mp ha).2

theorem get?_put (c : Catalog) (t i : String) (tree : RowIndex) (table index : String) :
    (c.put t i tree).get? table index =
      if table = t ∧ index = i then some tree else c.get? table index := by
  simp only [get?, put, List.find?_append]
  split
  · next same =>
    rw [same.1, same.2, find?_filter_eq_none (by simp)]
    simp
  · next differs =>
    have other : ((t, i) == (table, index)) = false := by
      rw [beq_eq_false_iff_ne, Ne, Prod.mk.injEq]
      exact fun same => differs ⟨same.1.symm, same.2.symm⟩
    rw [find?_filter_of_imp, List.find?_singleton, other]
    · simp
    · intro entry found
      simp only [beq_iff_eq] at found
      simpa [found] using differs

theorem get?_evict (c : Catalog) (t table index : String) :
    (c.evict t).get? table index = if table = t then none else c.get? table index := by
  simp only [get?, evict]
  split
  · next same =>
    rw [find?_filter_eq_none]
    · rfl
    · intro entry found
      simp only [beq_iff_eq] at found
      simp [found, same]
  · next differs =>
    rw [find?_filter_of_imp]
    intro entry found
    simp only [beq_iff_eq] at found
    simpa [found] using differs

end SqlEngine.Index.Catalog
