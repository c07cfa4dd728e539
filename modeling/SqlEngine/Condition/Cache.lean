import SqlEngine.Condition.CompiledPattern
import SqlEngine.Condition.Truth

/-! Evaluation that keeps the patterns it has made ready for matching, for all conditions that come
later. A pattern is kept under its own text, and no more are kept than `capacity`. -/

namespace SqlEngine

structure PatternCache where
  entries : List (String × CompiledPattern)
  sound : ∀ e ∈ entries, e.2 = .ofPattern e.1

namespace PatternCache

def capacity : Nat := 1000

def empty : PatternCache := ⟨[], List.forall_mem_nil _⟩

def keep (c : PatternCache) (pattern : String) : PatternCache :=
  if c.entries.length < capacity then
    ⟨c.entries ++ [(pattern, .ofPattern pattern)],
      List.forall_mem_append.mpr ⟨c.sound, List.forall_mem_singleton.mpr rfl⟩⟩
  else c

/-- A pattern that is not there is compiled, and kept if there is room. -/
def like (c : PatternCache) (pattern text : String) : Bool × PatternCache :=
  match c.entries.lookup pattern with
  | some compiled => (compiled.accepts text, c)
  | none => ((CompiledPattern.ofPattern pattern).accepts text, c.keep pattern)

end PatternCache

namespace Dialect

def Test.holdsWith (c : PatternCache) (t : Test) (v : Value) : Bool × PatternCache :=
  match t with
  | like pattern negated =>
    if v.isNull then (false, c)
    else
      let (found, c) := c.like pattern v.display
      (found != negated, c)
  | other => (other.holds v, c)

def Condition.holdsWith (scope : Scope) (row : Row) (c : PatternCache) :
    Condition → Bool × PatternCache
  | both left right =>
    match left.holdsWith scope row c with
    | (true, c) => right.holdsWith scope row c
    | (false, c) => (false, c)
  | either left right =>
    match left.holdsWith scope row c with
    | (true, c) => (true, c)
    | (false, c) => right.holdsWith scope row c
  | negation inner =>
    let (found, c) := inner.holdsWith scope row c
    (!found, c)
  | test column t => t.holdsWith c (scope.value row column)

def satisfiesWith (scope : Scope) (condition : Option Condition) (row : Row) (c : PatternCache) :
    Bool × PatternCache :=
  match condition with
  | some condition => condition.holdsWith scope row c
  | none => (true, c)

def verdictsWith (scope : Scope) (condition : Option Condition) :
    List Row → PatternCache → List Bool × PatternCache
  | [], c => ([], c)
  | row :: rest, c =>
    let (verdict, c) := satisfiesWith scope condition row c
    let (verdicts, c) := verdictsWith scope condition rest c
    (verdict :: verdicts, c)

end Dialect
end SqlEngine
