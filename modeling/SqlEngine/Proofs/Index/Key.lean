import SqlEngine.Index.Build
import SqlEngine.Proofs.Order

/-! The order of index keys. It is that of their parts, place by place, so it is an order on all
keys whose parts at each place are ordered. -/

namespace SqlEngine.Index.Key

open Std (TransCmp OrientedCmp)

instance : OrientedCmp order where
  eq_swap {k l} := by
    induction k generalizing l with
    | nil => cases l <;> rfl
    | cons a as ih =>
      cases l with
      | nil => rfl
      | cons b bs =>
        have first : a.sortOrder b = (b.sortOrder a).swap := OrientedCmp.eq_swap
        rw [order, order, Ordering.swap_then, ← ih, ← first]

def partsAt (ks : List Key) (i : Nat) : List Value := ks.filterMap (·[i]?)

theorem partsAt_subset {ks ls : List Key} (h : ks ⊆ ls) (i : Nat) : partsAt ks i ⊆ partsAt ls i :=
  List.filterMap_subset _ h

theorem isLE_trans {k l m : Key} (total : ∀ i, Value.TotallyOrdered (partsAt [k, l, m] i))
    (kl : (order k l).isLE = true) (lm : (order l m).isLE = true) : (order k m).isLE = true := by
  induction k generalizing l m with
  | nil => cases m <;> rfl
  | cons a as ih =>
    match l, m, kl, lm with
    | b :: bs, c :: cs, kl, lm =>
      have trans := (total 0).transCmp
      let x : { v // v ∈ partsAt [a :: as, b :: bs, c :: cs] 0 } := ⟨a, by simp [partsAt]⟩
      let y : { v // v ∈ partsAt [a :: as, b :: bs, c :: cs] 0 } := ⟨b, by simp [partsAt]⟩
      let z : { v // v ∈ partsAt [a :: as, b :: bs, c :: cs] 0 } := ⟨c, by simp [partsAt]⟩
      rw [order, Ordering.isLE_then_iff_or] at kl lm ⊢
      rcases kl with less | ⟨same, kl⟩ <;> rcases lm with less' | ⟨same', lm⟩
      · exact .inl (@TransCmp.lt_trans _ _ trans x y z less less')
      · exact .inl (@TransCmp.lt_of_lt_of_eq _ _ trans x y z less same')
      · exact .inl (@TransCmp.lt_of_eq_of_lt _ _ trans x y z same less')
      · exact .inr ⟨@TransCmp.eq_trans _ _ trans x y z same same',
          ih (fun i => total (i + 1)) kl lm⟩

/-- Keys are ordered if their parts are, place by place. -/
theorem order_trans {ks : List Key} (total : ∀ i, Value.TotallyOrdered (partsAt ks i)) :
    TransCmp fun k l : { k // k ∈ ks } => order k l where
  eq_swap {k l} := (OrientedCmp.eq_swap : order k l = _)
  isLE_trans {k l m} := by
    refine isLE_trans fun i => ?_
    have sub : [k.1, l.1, m.1] ⊆ ks := by simp [k.2, l.2, m.2]
    rw [Value.totallyOrdered_iff]
    exact (Value.totallyOrdered_iff.mp (total i)).of_subset (partsAt_subset sub i)

/-- Values, and so keys, are compared alike from both sides. Their orders are transitive on three
values unless one is a double between two different words that are read as it, and on three keys
unless their parts at some place are such values. -/
theorem order_coherent (a b c : Value) (k l m : Key) :
    (b.sortOrder a = (a.sortOrder b).swap ∧
      (Value.Separate [a, b, c] → Coherent Value.sortOrder a b c)) ∧
    order l k = (order k l).swap ∧
      ((∀ i, Value.Separate (partsAt [k, l, m] i)) → Coherent order k l m) := by
  refine ⟨⟨OrientedCmp.eq_swap, fun separate => ?_⟩, OrientedCmp.eq_swap, fun separate => ?_⟩
  · have trans := (Value.totallyOrdered_iff.mpr separate).transCmp
    exact .of_transCmp trans (by simp) (by simp) (by simp)
  · have trans := order_trans fun i => Value.totallyOrdered_iff.mpr (separate i)
    exact .of_transCmp trans (by simp) (by simp) (by simp)

/-- A double between two words of which only one is read as it, and keys of three lengths. -/
theorem order_coherent_apart :
    let a := Value.integer 9007199254740993
    let b := Value.real ⟨0x4340000000000000⟩
    let c := Value.integer 9007199254740994
    Value.Separate [a, b, c] ∧ (∀ i, Value.Separate (partsAt [[], [b, .null], [c]] i)) ∧
    Coherent Value.sortOrder a b c ∧ Coherent order [] [b, .null] [c] := by
  intro a b c
  have values : Value.Separate [a, b, c] := by decide +kernel
  have keys : ∀ i, Value.Separate (partsAt [[], [b, .null], [c]] i)
    | 0 => by decide +kernel
    | 1 => by decide +kernel
    | i + 2 => by simp [partsAt, Value.Separate]
  have coherent := order_coherent a b c [] [b, .null] [c]
  exact ⟨values, keys, coherent.1.2 values, coherent.2.2 keys⟩

/-- The double between two words that are read as it is equal to both. -/
theorem order_astray :
    let m := Value.integer 9007199254740992
    let x := Value.real ⟨0x4340000000000000⟩
    let n := Value.integer 9007199254740993
    (m.sortOrder x = .eq ∧ x.sortOrder n = .eq ∧ m.sortOrder n = .lt) ∧
    (n.sortOrder x).isLE = true ∧ (x.sortOrder m).isLE = true ∧ (n.sortOrder m).isLE = false ∧
    order [m] [x] = .eq ∧ order [x] [n] = .eq ∧ order [m] [n] = .lt := by
  decide +kernel

end SqlEngine.Index.Key
