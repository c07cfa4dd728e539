import SqlEngine.Failure

/-! The time that a statement may take. Whether the deadline has passed is looked at before every
call of the store and before every step of a long loop. -/

namespace SqlEngine

structure Deadline where
  milliseconds : Nat
  passed : Bool
deriving DecidableEq

namespace Deadline

def failure (d : Deadline) : Failure := .timeout d.milliseconds

/-- The deadline of a statement that starts now: no time at all is over at once. -/
def starting (milliseconds : Nat) : Deadline := ⟨milliseconds, milliseconds == 0⟩

def check (d : Deadline) : Except Failure Unit :=
  if d.passed then .error d.failure else .ok ()

theorem check_of_open {d : Deadline} (h : d.passed = false) : d.check = .ok () := by
  simp [check, h]

end Deadline
end SqlEngine
