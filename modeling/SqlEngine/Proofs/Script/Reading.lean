import SqlEngine.Proofs.Script.Trace

/-! Scripts that only read. Such a script answers what it would answer if every call were asked of
the same store, and its run leaves that store as it is. -/

namespace SqlEngine.Script

open Dialect

variable {α β : Type}

/-- What a script answers when it asks everything of one store. -/
def eval (s : Store) : Script α → Except Halt α
  | done result => result
  | call c next => match s.answer c with
    | .ok (answer, _) => (next answer).eval s
    | .error e => .error (.failed (.store e))
  | judge scope condition rows next => (next (rows.map (satisfies scope condition))).eval s

/-- The store answers every call of the script and stays as it is. -/
def Reads (m : Script α) (s : Store) : Prop := ∀ c ∈ m.trace s, s.Observes c

@[simp] theorem eval_pure (s : Store) (a : α) : (pure a : Script α).eval s = .ok a := rfl

@[simp] theorem eval_done (s : Store) (r : Except Halt α) : (done r).eval s = r := rfl

@[simp] theorem eval_ofExcept (s : Store) (r : Except Failure α) :
    (ofExcept r).eval s = Halt.lift r := rfl

@[simp] theorem eval_fail (s : Store) (e : Failure) : (fail e : Script α).eval s = .error e := rfl

@[simp] theorem eval_bind (s : Store) (m : Script α) (f : α → Script β) :
    (m >>= f).eval s = m.eval s >>= fun a => (f a).eval s := by
  show (m.bind f).eval s = _
  induction m with
  | done result => cases result <;> rfl
  | call c next ih =>
    simp only [bind, eval]
    cases s.answer c with
    | error e => rfl
    | ok answer => exact ih answer.1
  | judge scope condition rows next ih => exact ih _

theorem parted_map (p : α → Bool) (xs : List α) : parted (xs.map p) xs = xs.partition p := by
  have pairs : xs.zip (xs.map p) = xs.map fun x => (x, p x) := by
    have := @List.zip_map' α α Bool id p xs
    simpa using this
  simp [parted, pairs, List.partition_eq_filter_filter, List.filter_map, Function.comp_def]

@[simp] theorem eval_sift (s : Store) (scope : Scope) (condition : Option Condition)
    (row : α → Row) (xs : List α) :
    (sift scope condition row xs).eval s =
      .ok (xs.partition fun x => satisfies scope condition (row x)) := by
  rw [sift, eval, List.map_map]
  exact congrArg Except.ok (parted_map _ xs)

theorem eval_ask {deadline : Deadline} (opened : deadline.passed = false) {s t : Store}
    {c : StoreCall} {a : c.Answer} (answered : s.answer c = .ok (a, t)) :
    (ask deadline c).eval s = .ok a := by
  simp [ask, Deadline.check_of_open opened, eval, answered]

namespace Reads

variable {s : Store}

theorem done (r : Except Halt α) : (Script.done r).Reads s := by
  intro c hc
  cases hc

theorem sift (scope : Scope) (condition : Option Condition) (row : α → Row) (xs : List α) :
    (Script.sift scope condition row xs).Reads s := by
  intro c hc
  cases hc

theorem ask {deadline : Deadline} (opened : deadline.passed = false) {c : StoreCall}
    (observed : s.Observes c) : (Script.ask deadline c).Reads s := by
  obtain ⟨a, answered⟩ := observed
  simp only [Reads, Script.ask, Deadline.check_of_open opened, trace, answered,
    List.mem_singleton, forall_eq]
  exact ⟨a, answered⟩

theorem afterCalls {m : Script α} (h : m.Reads s) : s.afterCalls (m.trace s) = s :=
  Store.afterCalls_of_observes h

theorem outcome {m : Script α} (h : m.Reads s) : m.outcome s = m.eval s := by
  induction m with
  | done result => rfl
  | call c next ih =>
    obtain ⟨a, answered⟩ := h c (by simp [trace])
    simp only [Script.outcome, eval, answered]
    exact ih a fun d hd => h d (by simp [trace, answered, hd])
  | judge scope condition rows next ih => exact ih _ h

theorem bind {m : Script α} {f : α → Script β} (first : m.Reads s)
    (rest : ∀ a, m.eval s = .ok a → (f a).Reads s) : (m >>= f).Reads s := by
  show (m.bind f).Reads s
  intro c hc
  rw [trace_bind, first.outcome, first.afterCalls, List.mem_append] at hc
  rcases hc with hc | hc
  · exact first c hc
  · cases answered : m.eval s with
    | error e => simp [answered] at hc
    | ok a => exact rest a answered c (by simpa [answered] using hc)

end Reads
end SqlEngine.Script
