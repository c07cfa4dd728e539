import SqlEngine.Dialect.Reader
import SqlEngine.Proofs.Success

/-! What holds of the values that a reader answers, whatever the tokens are. -/

namespace SqlEngine.Dialect.Reader

variable {α β : Type} {P : α → Prop} {Q : β → Prop}

def Ensures (m : Reader α) (P : α → Prop) : Prop :=
  ∀ ts a rest, m ts = .ok (a, rest) → P a

namespace Ensures

theorem pure {a : α} (h : P a) : Ensures (Pure.pure a) P := by
  intro ts b rest answered
  cases answered
  exact h

theorem fail (e : Expectation) : Ensures (Reader.fail e) P := by
  intro ts a rest answered
  cases answered

theorem ofExcept {x : Except Failure α} (h : ∀ a, x = .ok a → P a) :
    Ensures (liftM x : Reader α) P := by
  intro ts a rest answered
  have lifted : (liftM x : Reader α) ts = x >>= fun a => Pure.pure (a, ts) := rfl
  rw [lifted, Success.bind_eq_ok] at answered
  obtain ⟨b, computed, same⟩ := answered
  cases same
  exact h a computed

theorem bind {m : Reader α} {f : α → Reader β} (first : Ensures m P)
    (rest : ∀ a, P a → Ensures (f a) Q) : Ensures (m >>= f) Q := by
  intro ts b left answered
  have split : (m >>= f) ts = m ts >>= fun answer => f answer.1 answer.2 := rfl
  rw [split, Success.bind_eq_ok] at answered
  obtain ⟨⟨a, between⟩, ha, hb⟩ := answered
  exact rest a (first ts a between ha) between b left hb

theorem after {m : Reader α} {f : α → Reader β} (rest : ∀ a, Ensures (f a) Q) :
    Ensures (m >>= f) Q :=
  bind (P := fun _ => True) (fun _ _ _ _ => trivial) fun a _ => rest a

theorem iterate {step : α → Reader (Option α)}
    (kept : ∀ a, P a → Ensures (step a) fun next => ∀ b, next = some b → P b) (fuel : Nat) {a : α}
    (h : P a) : Ensures (Reader.iterate step fuel a) P := by
  induction fuel generalizing a with
  | zero => exact .pure h
  | succ fuel ih =>
    refine .bind (kept a h) fun next hnext => ?_
    cases next with
    | none => exact .pure h
    | some b => exact ih (hnext b rfl)

theorem repeatedly {step : α → Reader (Option α)}
    (kept : ∀ a, P a → Ensures (step a) fun next => ∀ b, next = some b → P b) {a : α} (h : P a) :
    Ensures (Reader.repeatedly step a) P :=
  fun ts => iterate kept ts.length h ts

theorem commaSeparated {item : Reader α} (h : Ensures item P) :
    Ensures (Reader.commaSeparated item) fun items => ∀ a ∈ items, P a := by
  refine .bind h fun first hfirst => .repeatedly ?_ (by simpa using hfirst)
  intro items hitems
  refine .after fun comma => ?_
  split
  · refine .bind h fun a ha => .pure ?_
    rintro b ⟨⟩
    simp only [List.mem_append, List.mem_singleton]
    rintro c (hc | rfl)
    · exact hitems c hc
    · exact ha
  · exact .pure nofun

end Ensures
end SqlEngine.Dialect.Reader
