import Mathlib.Data.List.Induction
import SqlEngine.Proofs.Engine.Reachable

/-! The events that have led to a state of an engine. -/

namespace SqlEngine.Engine

open Script

/-- A text that was executed, or a change around the engine: of the shared limiter or of the log. -/
inductive Event where
  | text (outage : Outage) (now : Nat) (caller sql : String)
  | surroundings (remote : RemoteLimiter) (log : AuditLog)

def afterEvent (e : Engine) : Event → Engine
  | .text outage now caller sql => (e.execute outage now caller sql).engine
  | .surroundings remote log => { e with remote, log }

def after (e : Engine) (events : List Event) : Engine := events.foldl afterEvent e

@[simp] theorem after_concat (e : Engine) (events : List Event) (last : Event) :
    e.after (events ++ [last]) = (e.after events).afterEvent last := by
  simp [after]

/-- A state is reachable just if some history leads to it. -/
theorem reachable_iff {e : Engine} :
    Reachable e ↔ ∃ c remote events, (ofConfiguration c remote).after events = e := by
  constructor
  · intro h
    induction h with
    | start c remote => exact ⟨c, remote, [], rfl⟩
    | execute _ outage now caller sql ih =>
      obtain ⟨c, remote, events, rfl⟩ := ih
      exact ⟨c, remote, events ++ [.text outage now caller sql], after_concat _ _ _⟩
    | surrounded _ remote log ih =>
      obtain ⟨c, remote', events, rfl⟩ := ih
      exact ⟨c, remote', events ++ [.surroundings remote log], after_concat _ _ _⟩
  · rintro ⟨c, remote, events, rfl⟩
    induction events using List.reverseRecOn with
    | nil => exact .start c remote
    | append_singleton events last ih =>
      rw [after_concat]
      cases last with
      | text outage now caller sql => exact ih.execute outage now caller sql
      | surroundings remote log => exact ih.surrounded remote log

end SqlEngine.Engine
