import Mathlib.Data.List.Dedup
import Mathlib.Data.List.Perm.Subperm
import SqlEngine.Proofs.Limits.Pacing

/-! How long a limiter remembers its callers. Windows are dropped only by calls, and not by every
call, so a window that has ended may stay for a while. The last time that windows were dropped
bounds the start of every window from below, and is itself less than the length of a window ago
after each call. -/

namespace SqlEngine.RateLimiter

/-- A limiter that is made when the clock shows a moment. -/
def madeAt (limit : RateLimit) (moment : Nat) : RateLimiter :=
  { ofLimit limit with lastPruned := moment }

/-- The callers of the calls that are less than a length of time old. -/
def seenWithin (length now : Nat) (calls : List (String × Nat)) : List String :=
  ((calls.filter fun c => now < c.2 + length).map (·.1)).dedup

theorem madeAt_span (limit : RateLimit) (made : Nat) :
    (madeAt limit made).span = nanosPerSecond * limit.windowSeconds := rfl

variable {l : RateLimiter} {caller : String} {now finish : Nat} {calls seen : List (String × Nat)}

theorem mem_prune {e : String × RateWindow} (mem : e ∈ (l.prune now).windows) : e ∈ l.windows := by
  unfold prune at mem
  split at mem
  · exact mem
  · exact List.mem_of_mem_filter mem

theorem mem_putWindow {w : RateWindow} {e : String × RateWindow}
    (mem : e ∈ (l.putWindow caller w).windows) : e = (caller, w) ∨ e ∈ l.windows := by
  unfold putWindow at mem
  split at mem
  · obtain ⟨old, there, rfl⟩ := List.mem_map.mp mem
    split
    · exact .inl rfl
    · exact .inr there
  · obtain there | new := List.mem_append.mp mem
    · exact .inr there
    · exact .inl (List.mem_singleton.mp new)

theorem mem_windowAt (l : RateLimiter) (caller : String) (now : Nat) :
    l.windowAt caller now = ⟨0, now⟩ ∨ (caller, l.windowAt caller now) ∈ l.windows := by
  rw [windowAt_eq]
  cases running : l.running? caller now with
  | none => exact .inl rfl
  | some w =>
    obtain ⟨e, found, rfl⟩ := Option.map_eq_some_iff.mp (running?_eq_some.mp running).1
    have key : e.1 = caller := by simpa using List.find?_some found
    exact .inr (key ▸ List.mem_of_find?_eq_some found)

theorem forall_charge {P : String → Nat → Prop} (own : P caller now)
    (kept : ∀ e ∈ (l.prune now).windows, P e.1 e.2.start) :
    ∀ e ∈ (l.charge caller now).2.windows, P e.1 e.2.start := by
  intro e mem
  rw [charge_eq] at mem
  obtain rfl | there := mem_putWindow mem
  · rw [charged_start]
    obtain new | there := mem_windowAt (l.prune now) caller now
    · rwa [new]
    · exact kept _ there
  · exact kept e there

theorem charge_lastPruned (l : RateLimiter) (caller : String) (now : Nat) :
    (l.charge caller now).2.lastPruned = (l.prune now).lastPruned := by
  rw [charge_eq, putWindow]
  split <;> rfl

theorem Distinct.after (h : l.Distinct) (calls : List (String × Nat)) :
    (l.after calls).Distinct := by
  induction calls generalizing l with
  | nil => exact h
  | cons c rest ih => exact ih (h.charge c.1 c.2)

theorem after_span (l : RateLimiter) (calls : List (String × Nat)) :
    (l.after calls).span = l.span := span_congr (after_limit l calls)

theorem after_append (l : RateLimiter) (calls rest : List (String × Nat)) :
    l.after (calls ++ rest) = (l.after calls).after rest :=
  List.foldl_append

theorem after_concat (l : RateLimiter) (calls : List (String × Nat)) (caller : String)
    (now : Nat) : l.after (calls ++ [(caller, now)]) = ((l.after calls).charge caller now).2 :=
  after_append l calls [(caller, now)]

def Started (calls : List (String × Nat)) (l : RateLimiter) : Prop :=
  ∀ e ∈ l.windows, (e.1, e.2.start) ∈ calls

theorem Started.charge (h : l.Started seen) (caller : String) (now : Nat) :
    (l.charge caller now).2.Started (seen ++ [(caller, now)]) :=
  forall_charge (P := fun other start => (other, start) ∈ seen ++ [(caller, now)])
    (List.mem_append_right _ (List.mem_singleton.mpr rfl))
    fun e mem => List.mem_append_left _ (h e (mem_prune mem))

theorem Started.after (h : l.Started seen) (calls : List (String × Nat)) :
    (l.after calls).Started (seen ++ calls) := by
  induction calls generalizing l seen with
  | nil => rwa [List.append_nil]
  | cons c rest ih =>
    have others := ih (h.charge c.1 c.2)
    rwa [List.append_assoc] at others

theorem started_madeAt (limit : RateLimit) (made : Nat) (calls : List (String × Nat)) :
    ((madeAt limit made).after calls).Started calls :=
  have none : (madeAt limit made).Started [] := fun _ mem => absurd mem List.not_mem_nil
  none.after calls

/-- The windows that had ended when windows were last dropped are gone. -/
structure Swept (l : RateLimiter) (now : Nat) : Prop where
  past : l.lastPruned ≤ now
  recent : ∀ e ∈ l.windows, l.lastPruned < e.2.start + l.span

theorem Swept.later {later : Nat} (h : l.Swept now) (le : now ≤ later) : l.Swept later :=
  ⟨Nat.le_trans h.past le, h.recent⟩

theorem swept_madeAt (limit : RateLimit) (made : Nat) : (madeAt limit made).Swept made :=
  ⟨Nat.le_refl _, fun _ mem => absurd mem List.not_mem_nil⟩

theorem Swept.prune (h : l.Swept now) (lasting : 0 < l.span) :
    (l.prune now).Swept now ∧ now < (l.prune now).lastPruned + l.span := by
  unfold RateLimiter.prune
  split
  · next soon => exact ⟨h, by omega⟩
  · refine ⟨⟨Nat.le_refl _, fun e mem => ?_⟩, Nat.lt_add_of_pos_right lasting⟩
    have runs := isRunning_iff.mp (List.mem_filter.mp mem).2
    show now < e.2.start + l.span
    omega

/-- After a call, windows were last dropped less than the length of a window ago. -/
theorem Swept.charge (h : l.Swept now) (lasting : 0 < l.span) (caller : String) :
    (l.charge caller now).2.Swept now ∧
      now < (l.charge caller now).2.lastPruned + l.span := by
  obtain ⟨swept, soon⟩ := h.prune lasting
  have span : (l.prune now).span = l.span := span_congr (prune_limit l now)
  rw [charge_lastPruned]
  refine ⟨⟨?_, ?_⟩, soon⟩
  · rw [charge_lastPruned]
    exact swept.past
  · rw [charge_lastPruned, charge_span]
    have own : (l.prune now).lastPruned < now + l.span := by
      have := swept.past
      omega
    refine forall_charge (P := fun _ start => (l.prune now).lastPruned < start + l.span) own
      fun e mem => ?_
    rw [← span]
    exact swept.recent e mem

theorem Swept.young (h : l.Swept now) (lasting : 0 < l.span) (caller : String) :
    ∀ e ∈ (l.charge caller now).2.windows, now < e.2.start + 2 * l.span := by
  intro e mem
  obtain ⟨swept, soon⟩ := h.charge lasting caller
  have recent := swept.recent e mem
  rw [charge_span] at recent
  omega

theorem Swept.after (h : l.Swept now) (lasting : 0 < l.span) (ordered : InOrder calls)
    (later : ∀ c ∈ calls, now ≤ c.2) (le : now ≤ finish) (early : ∀ c ∈ calls, c.2 ≤ finish) :
    (l.after calls).Swept finish := by
  induction calls generalizing l now with
  | nil => exact h.later le
  | cons c rest ih =>
    obtain ⟨first, inOrder⟩ := List.pairwise_cons.mp ordered
    obtain ⟨reached, early⟩ := List.forall_mem_cons.mp early
    have here := h.later (later c List.mem_cons_self)
    exact ih (here.charge lasting c.1).1 (by rwa [charge_span]) inOrder first reached early

theorem tracked_le {length : Nat} (distinct : l.Distinct) (started : l.Started calls)
    (young : ∀ e ∈ l.windows, now < e.2.start + length) :
    l.tracked ≤ (seenWithin length now calls).length := by
  have seen : l.windows.map (·.1) ⊆ seenWithin length now calls := by
    intro caller mem
    obtain ⟨e, there, rfl⟩ := List.mem_map.mp mem
    refine List.mem_dedup.mpr (List.mem_map.mpr ⟨(e.1, e.2.start), ?_, rfl⟩)
    exact List.mem_filter.mpr ⟨started e there, decide_eq_true (young e there)⟩
  calc l.tracked = (l.windows.map (·.1)).length := (List.length_map _).symm
    _ ≤ (seenWithin length now calls).length := (List.Nodup.subperm distinct seen).length_le

/-- Of calls in the order of their times, none before the limiter was made, each leaves only windows
that started less than two lengths of a window ago, so that no more callers are tracked than were
seen in that time. -/
theorem windows_forgotten (limit : RateLimit) (lasting : 1 ≤ limit.windowSeconds) (made : Nat)
    (calls : List (String × Nat)) (ordered : InOrder calls) (since : ∀ c ∈ calls, made ≤ c.2) :
    ∀ before caller now rest, calls = before ++ (caller, now) :: rest →
      (∀ e ∈ ((madeAt limit made).after (before ++ [(caller, now)])).windows,
        e.2.start ≤ now ∧ now < e.2.start + 2 * (nanosPerSecond * limit.windowSeconds)) ∧
      ((madeAt limit made).after (before ++ [(caller, now)])).tracked ≤
        (seenWithin (2 * (nanosPerSecond * limit.windowSeconds)) now
          (before ++ [(caller, now)])).length := by
  rintro before caller now rest rfl
  obtain ⟨inOrder, -, early⟩ := List.pairwise_append.mp ordered
  have early : ∀ c ∈ before, c.2 ≤ now := fun c mem => early c mem _ List.mem_cons_self
  have made_le : made ≤ now := since (caller, now) (by simp)
  have positive : 0 < (madeAt limit made).span := Nat.mul_pos (by decide) lasting
  have swept := (swept_madeAt limit made).after positive inOrder
    (fun c mem => since c (List.mem_append_left _ mem)) made_le early
  have young := swept.young (by rwa [after_span]) caller
  have started := started_madeAt limit made (before ++ [(caller, now)])
  rw [after_span, madeAt_span, ← after_concat] at young
  refine ⟨fun e mem => ⟨?_, young e mem⟩, tracked_le ?_ started young⟩
  · obtain there | own := List.mem_append.mp (started e mem)
    · exact early _ there
    · exact Nat.le_of_eq (congrArg Prod.snd (List.mem_singleton.mp own))
  · exact Distinct.after (l := madeAt limit made) List.nodup_nil _

/-- The window of `b` has ended before the last call, but is dropped by a later one only. -/
def lingering : List (String × Nat) :=
  [("a", 0), ("b", 500000000), ("c", 1200000000), ("d", 2100000000)]

theorem windows_forgotten_lingering :
    (∀ e ∈ ((madeAt ⟨2, 1⟩ 0).after (lingering.take 3 ++ [("d", 2100000000)])).windows,
      e.2.start ≤ 2100000000 ∧ 2100000000 < e.2.start + 2 * (nanosPerSecond * 1)) ∧
    ((madeAt ⟨2, 1⟩ 0).after (lingering.take 3 ++ [("d", 2100000000)])).tracked ≤
      (seenWithin (2 * (nanosPerSecond * 1)) 2100000000
        (lingering.take 3 ++ [("d", 2100000000)])).length ∧
    ((madeAt ⟨2, 1⟩ 0).after lingering).tracked = 3 := by
  have ordered : InOrder lingering := by
    unfold InOrder
    decide +kernel
  obtain ⟨young, few⟩ := windows_forgotten ⟨2, 1⟩ (by decide) 0 _ ordered (by simp)
    (lingering.take 3) "d" 2100000000 [] rfl
  exact ⟨young, few, by decide +kernel⟩

end SqlEngine.RateLimiter
