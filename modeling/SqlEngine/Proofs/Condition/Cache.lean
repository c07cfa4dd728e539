import SqlEngine.Condition.Cache
import SqlEngine.Proofs.Condition.CompiledPattern

/-! What was matched before makes no difference to what a condition says of a row. So conditions can
be evaluated without the patterns that were kept. -/

namespace SqlEngine

open Dialect

theorem CompiledPattern.ofPattern_accepts_eq (pattern text : String) :
    (CompiledPattern.ofPattern pattern).accepts text = Pattern.like pattern text := by
  rw [Bool.eq_iff_iff, ofPattern_accepts, Pattern.like_iff]

theorem PatternCache.like_fst (c : PatternCache) (pattern text : String) :
    (c.like pattern text).1 = Pattern.like pattern text := by
  unfold PatternCache.like
  cases found : c.entries.lookup pattern with
  | some compiled =>
    obtain ⟨before, after, split, -⟩ := List.lookup_eq_some_iff.mp found
    have known : compiled = .ofPattern pattern := c.sound (pattern, compiled) (by simp [split])
    exact known ▸ CompiledPattern.ofPattern_accepts_eq pattern text
  | none => exact CompiledPattern.ofPattern_accepts_eq pattern text

namespace Dialect

theorem Test.holdsWith_fst (c : PatternCache) (t : Test) (v : Value) :
    (t.holdsWith c v).1 = t.holds v := by
  cases t with
  | compare op literal => rfl
  | isNull negated => rfl
  | like pattern negated =>
    simp only [holdsWith, holds]
    cases v.isNull with
    | true => rfl
    | false => simp [c.like_fst]

theorem Condition.holdsWith_fst (scope : Scope) (row : Row) (c : PatternCache)
    (condition : Condition) : (condition.holdsWith scope row c).1 = condition.holds scope row := by
  induction condition generalizing c with
  | both left right ihLeft ihRight =>
    simp only [holdsWith, holds, ← ihLeft c]
    rcases left.holdsWith scope row c with ⟨_ | _, later⟩
    · rfl
    · exact ihRight later
  | either left right ihLeft ihRight =>
    simp only [holdsWith, holds, ← ihLeft c]
    rcases left.holdsWith scope row c with ⟨_ | _, later⟩
    · exact ihRight later
    · rfl
  | negation inner ih => exact congrArg not (ih c)
  | test column t => exact t.holdsWith_fst c (scope.value row column)

variable (scope : Scope) (condition : Option Condition)

theorem satisfiesWith_fst (row : Row) (c : PatternCache) :
    (satisfiesWith scope condition row c).1 = satisfies scope condition row := by
  cases condition with
  | some condition => exact condition.holdsWith_fst scope row c
  | none => rfl

/-- Verdicts do not depend on the patterns that were kept. -/
theorem verdictsWith_fst (rows : List Row) (c : PatternCache) :
    (verdictsWith scope condition rows c).1 = rows.map (satisfies scope condition) := by
  induction rows generalizing c with
  | nil => rfl
  | cons row rest ih =>
    rw [List.map_cons, ← satisfiesWith_fst scope condition row c]
    exact congrArg (List.cons _) (ih _)

end Dialect

namespace PatternCache

def after (past : List (Scope × Row × Condition)) : PatternCache :=
  past.foldl (fun c e => (e.2.2.holdsWith e.1 e.2.1 c).2) empty

/-- Whatever conditions were evaluated before: a text is found to be like a pattern just if it
matches the pattern, both in small letters. The loop that some patterns need ends on all inputs. -/
theorem like_after (past : List (Scope × Row × Condition)) (pattern text : String) :
    (((after past).like pattern text).1 = true ↔
      Pattern.Matches (Text.lowerChars pattern.toList) (Text.lowerChars text.toList)) ∧
    ∀ (segments : List Segment) (chars : List Char),
      ∃ rounds ≤ (chars.length + 2) * (segments.length + 1),
        (Trial.start segments chars).Ends rounds (Trial.start segments chars).answer := by
  refine ⟨?_, Trial.exists_ends⟩
  rw [like_fst]
  exact Pattern.like_iff

end PatternCache
end SqlEngine
