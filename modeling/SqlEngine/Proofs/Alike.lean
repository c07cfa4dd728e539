import SqlEngine.Failure
import SqlEngine.Proofs.Success

/-! Two computations that come to the same: both fail in the same way, or both succeed with values
that are related. -/

namespace SqlEngine

inductive Alike {ε α β : Type} (R : α → β → Prop) : Except ε α → Except ε β → Prop where
  | ok {a : α} {b : β} (related : R a b) : Alike R (.ok a) (.ok b)
  | error (e : ε) : Alike R (.error e) (.error e)

namespace Alike

variable {ε α β γ δ : Type} {R : α → β → Prop} {S : γ → δ → Prop}

theorem of_eq {x y : Except ε α} (same : x = y) : Alike Eq x y := by
  subst same
  cases x with
  | error e => exact .error e
  | ok a => exact .ok rfl

theorem bind {x : Except ε α} {y : Except ε β} {f : α → Except ε γ} {g : β → Except ε δ}
    (h : Alike R x y)
    (next : ∀ a b, R a b → x = .ok a → y = .ok b → Alike S (f a) (g b)) :
    Alike S (x >>= f) (y >>= g) := by
  cases h with
  | ok related => exact next _ _ related rfl rfl
  | error e => exact .error e

theorem step {x y : Except ε α} {f : α → Except ε γ} {g : α → Except ε δ} (same : x = y)
    (next : ∀ a, x = .ok a → Alike S (f a) (g a)) : Alike S (x >>= f) (y >>= g) := by
  subst same
  refine (of_eq rfl).bind fun a b related answered _ => ?_
  subst related
  exact next a answered

theorem lift {x : Except Failure α} {y : Except Failure β} (h : Alike R x y) :
    Alike R (Halt.lift x) (Halt.lift y) := by
  cases h with
  | ok related => exact .ok related
  | error e => exact .error (Halt.failed e)

theorem check {x y : Except Failure α} {f : α → Except Halt γ} {g : α → Except Halt δ}
    (same : x = y) (next : ∀ a, x = .ok a → Alike S (f a) (g a)) :
    Alike S (Halt.lift x >>= f) (Halt.lift y >>= g) :=
  .step (congrArg Halt.lift same) fun a answered => next a (Halt.lift_eq_ok.mp answered)

theorem mapM {f : α → Except ε γ} {g : β → Except ε δ} {xs : List α} {ys : List β}
    (h : List.Forall₂ R xs ys) (each : ∀ a b, R a b → Alike S (f a) (g b)) :
    Alike (List.Forall₂ S) (xs.mapM f) (ys.mapM g) := by
  induction h with
  | nil => exact .ok .nil
  | cons related _ ih =>
    rw [List.mapM_cons, List.mapM_cons]
    refine (each _ _ related).bind fun c d first _ _ => ?_
    exact ih.bind fun cs ds rest _ _ => .ok (.cons first rest)

end Alike
end SqlEngine
