import SqlEngine.Proofs.Script.Reading

/-! Scripts that do not break off, whatever they are answered. -/

namespace SqlEngine.Script

variable {α β : Type}

/-- No way through the script breaks off. -/
def Steady : Script α → Prop
  | done result => result ≠ .error .broken
  | call _ next => ∀ answer, (next answer).Steady
  | judge _ _ _ next => ∀ verdicts, (next verdicts).Steady

namespace Steady

theorem ok (a : α) : (done (.ok a)).Steady := nofun

theorem fail (e : Failure) : (Script.fail e : Script α).Steady := nofun

theorem ofExcept (r : Except Failure α) : (Script.ofExcept r).Steady := by
  cases r <;> exact nofun

theorem ask (deadline : Deadline) (c : StoreCall) : (Script.ask deadline c).Steady := by
  unfold Script.ask
  split
  · exact ok
  · exact nofun

theorem sift {ρ : Type} (scope : Scope) (condition : Option Dialect.Condition) (row : ρ → Row)
    (xs : List ρ) : (Script.sift scope condition row xs).Steady := fun _ => nofun

theorem bind {m : Script α} {f : α → Script β} (first : m.Steady) (rest : ∀ a, (f a).Steady) :
    (m >>= f).Steady := by
  show (m.bind f).Steady
  induction m with
  | done result =>
    cases result with
    | ok a => exact rest a
    | error h => exact fun same => first (congrArg Except.error (Except.error.inj same))
  | call c next ih => exact fun answer => ih answer (first answer)
  | judge scope condition rows next ih => exact fun verdicts => ih verdicts (first verdicts)

theorem eval_ne {m : Script α} (h : m.Steady) (s : Store) : m.eval s ≠ .error .broken := by
  induction m with
  | done result => exact h
  | call c next ih =>
    unfold eval
    split
    · exact ih _ (h _)
    · exact nofun
  | judge scope condition rows next ih => exact ih _ (h _)

theorem eval_bind {m : Script α} {f : α → Script β} (first : m.Steady) {s : Store}
    (broken : (m >>= f).eval s = .error .broken) :
    ∃ a, m.eval s = .ok a ∧ (f a).eval s = .error .broken := by
  rw [Script.eval_bind] at broken
  cases answered : m.eval s with
  | ok a =>
    rw [answered] at broken
    exact ⟨a, rfl, broken⟩
  | error h =>
    rw [answered] at broken
    cases broken
    exact absurd answered (first.eval_ne s)

end Steady
end SqlEngine.Script
