import SqlEngine.Proofs.Condition.Cache
import SqlEngine.Store.Script

/-! What a script does to a store, call by call. The calls that it makes when none fails are its
trace; a call that fails cuts the run off behind a prefix of the trace. The patterns kept from
earlier scripts play no part in that. -/

namespace SqlEngine

open Dialect

namespace Store

def afterCall (s : Store) (c : StoreCall) : Store :=
  match s.answer c with
  | .ok (_, t) => t
  | .error _ => s

def afterCalls (s : Store) (calls : List StoreCall) : Store := calls.foldl afterCall s

@[simp] theorem afterCalls_nil (s : Store) : s.afterCalls [] = s := rfl

@[simp] theorem afterCalls_cons (s : Store) (c : StoreCall) (calls : List StoreCall) :
    s.afterCalls (c :: calls) = (s.afterCall c).afterCalls calls := rfl

theorem afterCalls_append (s : Store) (first second : List StoreCall) :
    s.afterCalls (first ++ second) = (s.afterCalls first).afterCalls second :=
  List.foldl_append

theorem afterCall_of_answer {s t : Store} {c : StoreCall} {a : c.Answer}
    (h : s.answer c = .ok (a, t)) : s.afterCall c = t := by
  simp [afterCall, h]

def Accepts : Store → List StoreCall → Prop
  | _, [] => True
  | s, c :: rest => ∃ a t, s.answer c = .ok (a, t) ∧ t.Accepts rest

theorem Accepts.append {s : Store} {first second : List StoreCall} (h : s.Accepts first)
    (rest : (s.afterCalls first).Accepts second) : s.Accepts (first ++ second) := by
  induction first generalizing s with
  | nil => exact rest
  | cons c calls ih =>
    obtain ⟨a, t, answered, h⟩ := h
    rw [afterCalls_cons, afterCall_of_answer answered] at rest
    exact ⟨a, t, answered, ih h rest⟩

def Observes (s : Store) (c : StoreCall) : Prop := ∃ a, s.answer c = .ok (a, s)

theorem afterCall_of_observes {s : Store} {c : StoreCall} (h : s.Observes c) :
    s.afterCall c = s := by
  obtain ⟨a, answered⟩ := h
  exact afterCall_of_answer answered

theorem afterCalls_of_observes {s : Store} {calls : List StoreCall}
    (h : ∀ c ∈ calls, s.Observes c) : s.afterCalls calls = s := by
  induction calls with
  | nil => rfl
  | cons c rest ih =>
    rw [afterCalls_cons, afterCall_of_observes (h c List.mem_cons_self)]
    exact ih fun d hd => h d (List.mem_cons_of_mem c hd)

theorem accepts_of_observes {s : Store} {calls : List StoreCall}
    (h : ∀ c ∈ calls, s.Observes c) : s.Accepts calls := by
  induction calls with
  | nil => trivial
  | cons c rest ih =>
    obtain ⟨a, answered⟩ := h c List.mem_cons_self
    exact ⟨a, s, answered, ih fun d hd => h d (List.mem_cons_of_mem c hd)⟩

end Store

namespace Script

variable {α β : Type}

def run (outage : Outage) : Script α → Store → (past : List StoreCall) → Run α
  | done result, store, past => ⟨result, store, past⟩
  | call c next, store, past =>
    match outage past c with
    | some f => ⟨.error f.failure, store, c :: past⟩
    | none =>
      match store.answer c with
      | .error e => ⟨.error (.failed (.store e)), store, c :: past⟩
      | .ok (answer, after) => run outage (next answer) after (c :: past)
  | judge scope condition rows next, store, past =>
    run outage (next (rows.map (satisfies scope condition))) store past

theorem run_call (outage : Outage) (c : StoreCall) (next : c.Answer → Script α) (s : Store)
    (past : List StoreCall) :
    (call c next).run outage s past = match outage past c with
      | some f => ⟨.error f.failure, s, c :: past⟩
      | none =>
        match s.answer c with
        | .error e => ⟨.error (.failed (.store e)), s, c :: past⟩
        | .ok (answer, after) => (next answer).run outage after (c :: past) := by
  rw [run]

/-- Whatever patterns are kept from before, a run is the same. -/
theorem runWith_fst (outage : Outage) (m : Script α) (patterns : PatternCache) (s : Store)
    (past : List StoreCall) : (m.runWith outage patterns s past).1 = m.run outage s past := by
  induction m generalizing patterns s past with
  | done result => rfl
  | call c next ih =>
    rw [runWith, run]
    cases outage past c with
    | some f => rfl
    | none =>
      cases s.answer c with
      | error e => rfl
      | ok answer => exact ih answer.1 patterns answer.2 (c :: past)
  | judge scope condition rows next ih =>
    rw [runWith, run, ← verdictsWith_fst scope condition rows patterns]
    exact ih _ _ s past

/-- The calls that a script makes when none fails. One that the store refuses is the last. -/
def trace : Script α → Store → List StoreCall
  | done _, _ => []
  | call c next, s => c :: match s.answer c with
    | .ok (answer, after) => (next answer).trace after
    | .error _ => []
  | judge scope condition rows next, s => (next (rows.map (satisfies scope condition))).trace s

/-- How a script ends when no call fails. -/
def outcome : Script α → Store → Except Halt α
  | done result, _ => result
  | call c next, s => match s.answer c with
    | .ok (answer, after) => (next answer).outcome after
    | .error e => .error (.failed (.store e))
  | judge scope condition rows next, s => (next (rows.map (satisfies scope condition))).outcome s

@[simp] theorem trace_done (result : Except Halt α) (s : Store) :
    (done result).trace s = [] := rfl

@[simp] theorem outcome_done (result : Except Halt α) (s : Store) :
    (done result).outcome s = result := rfl

theorem trace_call (c : StoreCall) (next : c.Answer → Script α) (s : Store) :
    (call c next).trace s = c :: match s.answer c with
      | .ok (answer, after) => (next answer).trace after
      | .error _ => [] := by
  rw [trace]

theorem outcome_call (c : StoreCall) (next : c.Answer → Script α) (s : Store) :
    (call c next).outcome s = match s.answer c with
      | .ok (answer, after) => (next answer).outcome after
      | .error e => .error (.failed (.store e)) := by
  rw [outcome]

theorem run_noOutage (m : Script α) (s : Store) (past : List StoreCall) :
    m.run noOutage s past =
      ⟨m.outcome s, s.afterCalls (m.trace s), (m.trace s).reverse ++ past⟩ := by
  induction m generalizing s past with
  | done result => rfl
  | call c next ih =>
    simp only [run_call, noOutage, trace_call, outcome_call]
    cases answered : s.answer c with
    | error e => simp [Store.afterCall, answered]
    | ok answer =>
      obtain ⟨a, t⟩ := answer
      simpa [Store.afterCall_of_answer answered, noOutage] using ih a t (c :: past)
  | judge scope condition rows next ih => exact ih _ s past

theorem trace_bind (m : Script α) (f : α → Script β) (s : Store) :
    (m.bind f).trace s = m.trace s ++
      match m.outcome s with
      | .ok a => (f a).trace (s.afterCalls (m.trace s))
      | .error _ => [] := by
  induction m generalizing s with
  | done result => cases result <;> simp [bind_ok, bind_error]
  | call c next ih =>
    simp only [bind_call, trace_call, outcome_call]
    cases answered : s.answer c with
    | error e => simp
    | ok answer =>
      obtain ⟨a, t⟩ := answer
      simpa [Store.afterCall_of_answer answered] using ih a t
  | judge scope condition rows next ih => exact ih _ s

theorem outcome_bind (m : Script α) (f : α → Script β) (s : Store) :
    (m.bind f).outcome s =
      match m.outcome s with
      | .ok a => (f a).outcome (s.afterCalls (m.trace s))
      | .error e => .error e := by
  induction m generalizing s with
  | done result => cases result <;> simp [bind_ok, bind_error]
  | call c next ih =>
    simp only [bind_call, trace_call, outcome_call]
    cases answered : s.answer c with
    | error e => rfl
    | ok answer =>
      obtain ⟨a, t⟩ := answer
      simpa [Store.afterCall_of_answer answered] using ih a t
  | judge scope condition rows next ih => exact ih _ s

/-- Under any outage a run is the undisturbed one, or it ends at the first call that fails, with
the store as the calls before have left it. -/
theorem run_eq_or_cut (outage : Outage) (m : Script α) (s : Store) (past : List StoreCall) :
    m.run outage s past = m.run noOutage s past ∨
    ∃ before c after f, m.trace s = before ++ c :: after ∧
      outage (before.reverse ++ past) c = some f ∧
      m.run outage s past =
        ⟨.error f.failure, s.afterCalls before, c :: (before.reverse ++ past)⟩ := by
  induction m generalizing s past with
  | done result => exact .inl rfl
  | call c next ih =>
    simp only [run_call, trace_call]
    cases failed : outage past c with
    | some f => exact .inr ⟨[], c, _, f, rfl, failed, rfl⟩
    | none =>
      cases answered : s.answer c with
      | error e => exact .inl rfl
      | ok answer =>
        obtain ⟨a, t⟩ := answer
        rcases ih a t (c :: past) with same | ⟨before, d, after, f, split, cut, ran⟩
        · exact .inl same
        · refine .inr ⟨c :: before, d, after, f, ?_, ?_, ?_⟩
          · simp [split]
          · simpa using cut
          · simpa [Store.afterCall_of_answer answered] using ran
  | judge scope condition rows next ih => exact ih _ s past

theorem askAll_of_accepts {deadline : Deadline} (opened : deadline.passed = false) {s : Store}
    {calls : List StoreCall} (h : s.Accepts calls) :
    (askAll deadline calls).trace s = calls ∧ (askAll deadline calls).outcome s = .ok () := by
  induction calls generalizing s with
  | nil => exact ⟨rfl, rfl⟩
  | cons c rest ih =>
    obtain ⟨a, t, answered, h⟩ := h
    have inner := ih h
    simp [askAll, ask, Deadline.check_of_open opened, bind_ok, bind_call, trace_call, outcome_call,
      answered, inner]

/-- The outage in which only the call of that number fails, counted from one. -/
def failingCall (number : Nat) (f : StoreFault) : Outage := fun past _ =>
  if past.length + 1 = number then some (.fault f) else none

/-- A run in which one call of the trace fails stops there. -/
theorem run_failingCall (m : Script α) (s : Store) (past : List StoreCall) (f : StoreFault)
    (i : Nat) (h : i < (m.trace s).length) :
    m.run (failingCall (past.length + i + 1) f) s past =
      ⟨.error (.failed (.store f)), s.afterCalls ((m.trace s).take i),
        ((m.trace s).take (i + 1)).reverse ++ past⟩ := by
  induction m generalizing s past i with
  | done result => simp at h
  | call c next ih =>
    cases i with
    | zero => simp [run_call, trace_call, failingCall, CallFailure.failure]
    | succ i =>
      have passes : failingCall (past.length + (i + 1) + 1) f past c = none := by
        simp [failingCall]
      simp only [run_call, passes]
      cases answered : s.answer c with
      | error e => simp [trace_call, answered] at h
      | ok answer =>
        obtain ⟨a, t⟩ := answer
        have inner : i < ((next a).trace t).length := by simpa [trace_call, answered] using h
        have numbers : past.length + (i + 1) + 1 = (c :: past).length + i + 1 := by
          simp only [List.length_cons]
          omega
        rw [numbers]
        simpa [trace_call, answered, Store.afterCall_of_answer answered] using
          ih a t (c :: past) i inner
  | judge scope condition rows next ih => exact ih _ s past i h

end Script
end SqlEngine
