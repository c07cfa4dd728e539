import Mathlib.Data.List.Forall2
import Mathlib.Data.List.Lex

/-! Lists element by element: related lists that grow at their ends, lexicographic order, the parts
around an element, and lists without repetitions. -/

namespace SqlEngine.Lists

variable {α β : Type}

theorem forall₂_concat {R : α → β → Prop} {as : List α} {bs : List β} {a : α} {b : β} :
    List.Forall₂ R (as ++ [a]) (bs ++ [b]) ↔ List.Forall₂ R as bs ∧ R a b := by
  rw [← List.forall₂_reverse_iff, List.reverse_append, List.reverse_append]
  simp only [List.reverse_singleton, List.singleton_append, List.forall₂_cons,
    List.forall₂_reverse_iff]
  exact and_comm

theorem eq_take_append_cons_drop {xs : List α} {i : Nat} {x : α} (h : xs[i]? = some x) :
    xs = xs.take i ++ x :: xs.drop (i + 1) ∧ (xs.take i).length = i := by
  obtain ⟨inside, rfl⟩ := List.getElem?_eq_some_iff.mp h
  refine ⟨?_, by simp; omega⟩
  rw [List.getElem_cons_drop, List.take_append_drop]

variable {R : α → α → Prop}

theorem lex_append {as bs : List α} (h : List.Lex R as bs) (length : as.length = bs.length)
    (as' bs' : List α) : List.Lex R (as ++ as') (bs ++ bs') := by
  induction h with
  | nil => cases length
  | rel first => exact .rel first
  | cons _ ih => exact .cons (ih (by simpa using length))

theorem lex_irrefl (irrefl : ∀ a, ¬R a a) (as : List α) : ¬List.Lex R as as := by
  induction as with
  | nil => nofun
  | cons a as ih =>
    intro less
    cases less with
    | rel first => exact irrefl a first
    | cons rest => exact ih rest

section

variable [BEq α] [LawfulBEq α]

theorem eraseDups_concat (xs : List α) (x : α) : (xs ++ [x]).eraseDups =
    if xs.eraseDups.any (· == x) then xs.eraseDups else xs.eraseDups ++ [x] := by
  have listed : xs.eraseDups.any (· == x) = xs.contains x := by
    rw [Bool.eq_iff_iff]
    simp
  rw [List.eraseDups_append, listed]
  cases there : xs.contains x <;> simp_all [List.removeAll, List.eraseDups_cons]

theorem eraseDups_of_nodup {xs : List α} (h : xs.Nodup) : xs.eraseDups = xs := by
  induction xs with
  | nil => rfl
  | cons x xs ih =>
    rw [List.nodup_cons] at h
    rw [List.eraseDups_cons, List.filter_eq_self.mpr, ih h.2]
    intro y hy
    simp only [Bool.not_eq_true', beq_eq_false_iff_ne]
    rintro rfl
    exact h.1 hy

end

end SqlEngine.Lists
