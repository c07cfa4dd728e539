import Mathlib.Data.List.Nodup
import SqlEngine.Limits.RateLimiter

/-! The window of a caller that runs at a time. At that time and later, a limiter answers the caller
from this window and from nothing else: windows that have ended may be dropped or kept, and a call
of one caller leaves the windows of all others alone. -/

namespace SqlEngine.RateLimiter

def Distinct (l : RateLimiter) : Prop := (l.windows.map (·.1)).Nodup

/-- The window of a caller, if there is one that has not ended. -/
def running? (l : RateLimiter) (caller : String) (now : Nat) : Option RateWindow :=
  (l.window? caller).filter (l.isRunning now)

def charged (l : RateLimiter) (w : RateWindow) : RateWindow :=
  if l.limit.maxQueries ≤ w.count then w else { w with count := w.count + 1 }

variable {l : RateLimiter} {caller other : String} {now later : Nat} {w : RateWindow}

theorem running?_eq_some :
    l.running? caller now = some w ↔ l.window? caller = some w ∧ l.isRunning now w = true :=
  Option.filter_eq_some_iff

theorem windowAt_eq (l : RateLimiter) (caller : String) (now : Nat) :
    l.windowAt caller now = (l.running? caller now).getD ⟨0, now⟩ := by
  unfold windowAt running?
  cases l.window? caller with
  | none => rfl
  | some w =>
    simp only [Option.filter_some]
    split <;> rfl

theorem windowAt_of_running (h : l.running? caller now = some w) : l.windowAt caller now = w := by
  rw [windowAt_eq, h, Option.getD_some]

theorem windowAt_of_ended (h : l.running? caller now = none) :
    l.windowAt caller now = ⟨0, now⟩ := by
  rw [windowAt_eq, h, Option.getD_none]

theorem isRunning_iff : l.isRunning now w = true ↔ now - w.start < l.span := by
  simp [isRunning]

theorem isRunning_of_later (h : now ≤ later) (running : l.isRunning later w = true) :
    l.isRunning now w = true := by
  rw [isRunning_iff] at running ⊢
  omega

theorem running?_later (h : now ≤ later) :
    l.running? caller later = (l.running? caller now).filter (l.isRunning later) := by
  unfold running?
  cases l.window? caller with
  | none => rfl
  | some w =>
    cases running : l.isRunning later w with
    | true => simp [Option.filter_some, running, isRunning_of_later h running]
    | false => cases earlier : l.isRunning now w <;> simp [Option.filter_some, running, earlier]

theorem find?_filter_of_distinct {α : Type} {entries : List (String × α)}
    (distinct : (entries.map (·.1)).Nodup) (keep : α → Bool) (key : String) :
    ((entries.filter fun e => keep e.2).find? (·.1 == key)).map (·.2) =
      ((entries.find? (·.1 == key)).map (·.2)).filter keep := by
  induction entries with
  | nil => rfl
  | cons entry rest ih =>
    rw [List.map_cons, List.nodup_cons] at distinct
    rw [List.filter_cons, List.find?_cons]
    cases found : entry.1 == key with
    | false =>
      split
      · rw [List.find?_cons, found]
        exact ih distinct.2
      · exact ih distinct.2
    | true =>
      have absent : rest.find? (·.1 == key) = none := by
        rw [List.find?_eq_none]
        intro e he same
        refine distinct.1 (List.mem_map.mpr ⟨e, he, ?_⟩)
        rw [beq_iff_eq] at found same
        exact same.trans found.symm
      split
      · next kept => simp [found, Option.filter_some, kept]
      · next dropped =>
        rw [ih distinct.2, absent]
        simp [Option.filter_some, dropped]

theorem Distinct.prune (h : l.Distinct) (now : Nat) : (l.prune now).Distinct := by
  unfold RateLimiter.prune
  split
  · exact h
  · exact h.sublist (List.filter_sublist.map _)

theorem prune_limit (l : RateLimiter) (now : Nat) : (l.prune now).limit = l.limit := by
  unfold prune
  split <;> rfl

theorem running?_prune (h : l.Distinct) (caller : String) (now : Nat) :
    (l.prune now).running? caller now = l.running? caller now := by
  unfold prune
  split
  · rfl
  · show Option.filter (l.isRunning now) _ = _
    have found := find?_filter_of_distinct h (l.isRunning now) caller
    simp only [window?, running?] at found ⊢
    rw [found, Option.filter_filter]
    simp

theorem putWindow_limit (l : RateLimiter) (caller : String) (w : RateWindow) :
    (l.putWindow caller w).limit = l.limit := by
  unfold putWindow
  split <;> rfl

theorem key_replaced (caller : String) (w : RateWindow) (e : String × RateWindow) :
    (if e.1 == caller then (caller, w) else e).1 = e.1 := by
  split
  · next same => exact (beq_iff_eq.mp same).symm
  · rfl

theorem window?_putWindow (l : RateLimiter) (caller : String) (w : RateWindow) (other : String) :
    (l.putWindow caller w).window? other =
      if other = caller then some w else l.window? other := by
  unfold putWindow window?
  split
  · next there =>
    have same : ((fun e : String × RateWindow => e.1 == other) ∘ fun e : String × RateWindow =>
        if e.1 == caller then (caller, w) else e) = fun e => e.1 == other := by
      funext e
      simp only [Function.comp, key_replaced]
    rw [List.find?_map, same, Option.map_map]
    split
    · next isCaller =>
      subst isCaller
      obtain ⟨e, found⟩ := Option.isSome_iff_exists.mp ((List.find?_isSome).mpr
        (List.any_eq_true.mp there))
      have key := List.find?_some found
      rw [found]
      simp only [Option.map_some, Function.comp]
      rw [if_pos key]
    · next differs =>
      cases found : l.windows.find? (·.1 == other) with
      | none => rfl
      | some e =>
        have key : e.1 = other := by simpa using List.find?_some found
        simp [key, differs]
  · next absent =>
    rw [List.find?_append]
    split
    · next isCaller =>
      subst isCaller
      have gone : l.windows.find? (·.1 == other) = none := by
        rw [List.find?_eq_none]
        intro e he same
        exact absent (List.any_eq_true.mpr ⟨e, he, same⟩)
      simp [gone]
    · next differs =>
      simp [Ne.symm differs]

theorem Distinct.putWindow (h : l.Distinct) (caller : String) (w : RateWindow) :
    (l.putWindow caller w).Distinct := by
  unfold Distinct RateLimiter.putWindow
  split
  · have keys : (l.windows.map fun e => if e.1 == caller then (caller, w) else e).map (·.1) =
        l.windows.map (·.1) := by
      rw [List.map_map]
      exact List.map_congr_left fun e _ => key_replaced caller w e
    rw [keys]
    exact h
  · next absent =>
    simp only [List.map_append, List.map_singleton]
    refine List.nodup_append.mpr ⟨h, List.nodup_singleton _, ?_⟩
    intro key hkey other hother same
    rw [List.mem_singleton] at hother
    obtain ⟨e, he, rfl⟩ := List.mem_map.mp hkey
    exact absent (List.any_eq_true.mpr ⟨e, he, beq_iff_eq.mpr (same.trans hother)⟩)

theorem charge_eq (l : RateLimiter) (caller : String) (now : Nat) :
    (l.charge caller now).2 =
      (l.prune now).putWindow caller
        ((l.prune now).charged ((l.prune now).windowAt caller now)) := by
  simp only [charge, charged]
  split <;> rfl

theorem charge_limit (l : RateLimiter) (caller : String) (now : Nat) :
    (l.charge caller now).2.limit = l.limit := by
  rw [charge_eq, putWindow_limit, prune_limit]

theorem span_congr {l l' : RateLimiter} (h : l.limit = l'.limit) : l.span = l'.span := by
  rw [span, span, h]

theorem charge_span (l : RateLimiter) (caller : String) (now : Nat) :
    (l.charge caller now).2.span = l.span :=
  span_congr (charge_limit l caller now)

theorem isRunning_congr {l l' : RateLimiter} (h : l.limit = l'.limit) (now : Nat) :
    l.isRunning now = l'.isRunning now := by
  funext w
  rw [isRunning, isRunning, span_congr h]

theorem Distinct.charge (h : l.Distinct) (caller : String) (now : Nat) :
    (l.charge caller now).2.Distinct := by
  rw [charge_eq]
  exact (h.prune now).putWindow _ _

theorem windowAt_prune (h : l.Distinct) (caller : String) (now : Nat) :
    (l.prune now).windowAt caller now = l.windowAt caller now := by
  rw [windowAt_eq, windowAt_eq, running?_prune h]

/-- The answer to a call depends on the window of the caller alone. -/
theorem charge_answer (h : l.Distinct) (caller : String) (now : Nat) :
    (l.charge caller now).1 =
      if l.limit.maxQueries ≤ (l.windowAt caller now).count then
        .error (.rateLimited (retryAfter (l.span - (now - (l.windowAt caller now).start))))
      else .ok () := by
  simp only [charge, windowAt_prune h, prune_limit, span_congr (prune_limit l now)]
  split <;> rfl

theorem isRunning_windowAt (positive : 0 < l.span) (caller : String) (now : Nat) :
    l.isRunning now (l.windowAt caller now) = true := by
  rw [windowAt_eq]
  cases found : l.running? caller now with
  | none => simpa [isRunning_iff] using positive
  | some w => exact (running?_eq_some.mp found).2

theorem charged_start (l : RateLimiter) (w : RateWindow) : (l.charged w).start = w.start := by
  unfold charged
  split <;> rfl

/-- After a call, the window of the caller is the one that the call was answered from; all others
are as before. -/
theorem running?_charge (h : l.Distinct) (positive : 0 < l.span) (caller : String) (now : Nat)
    (other : String) :
    (l.charge caller now).2.running? other now =
      if other = caller then some (l.charged (l.windowAt caller now))
      else l.running? other now := by
  have pruned : (l.prune now).charged ((l.prune now).windowAt caller now) =
      l.charged (l.windowAt caller now) := by
    rw [windowAt_prune h, charged, charged, prune_limit]
  have same : (l.charge caller now).2.isRunning now = l.isRunning now :=
    isRunning_congr (charge_limit l caller now) now
  rw [running?, same, charge_eq, window?_putWindow, pruned]
  split
  · have runs := isRunning_windowAt positive caller now
    rw [isRunning_iff] at runs
    rw [Option.filter_some, if_pos (by rwa [isRunning_iff, charged_start])]
  · rw [← running?_prune h other now]
    show _ = Option.filter ((l.prune now).isRunning now) _
    rw [isRunning_congr (prune_limit l now) now]

end SqlEngine.RateLimiter
