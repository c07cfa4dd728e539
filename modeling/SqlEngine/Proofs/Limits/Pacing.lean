import SqlEngine.Proofs.Limits.Windows

/-! What a limiter answers to a sequence of calls. A caller gets the answers that it would get
alone, a rejected call leaves no trace, and no caller gets more than `maxQueries` calls through in
one of its windows, or more than twice as many in the length of a window. -/

namespace SqlEngine.RateLimiter

/-- No call is made before the one ahead of it. A call is a caller and a time. -/
def InOrder (calls : List (String × Nat)) : Prop := calls.Pairwise fun a b => a.2 ≤ b.2

def after (l : RateLimiter) (calls : List (String × Nat)) : RateLimiter :=
  calls.foldl (fun l c => (l.charge c.1 c.2).2) l

theorem after_cons (l : RateLimiter) (c : String × Nat) (rest : List (String × Nat)) :
    l.after (c :: rest) = (l.charge c.1 c.2).2.after rest := rfl

def answered (l : RateLimiter) :
    List (String × Nat) → List ((String × Nat) × Except Failure Unit)
  | [] => []
  | c :: rest => (c, (l.charge c.1 c.2).1) :: (l.charge c.1 c.2).2.answered rest

def answers (l : RateLimiter) (calls : List (String × Nat)) : List (Except Failure Unit) :=
  (l.answered calls).map (·.2)

def answersTo (l : RateLimiter) (caller : String) (calls : List (String × Nat)) :
    List (Except Failure Unit) :=
  ((l.answered calls).filter fun a => a.1.1 == caller).map (·.2)

/-- The times of the calls of one caller that are accepted. -/
def accepted (l : RateLimiter) (caller : String) (calls : List (String × Nat)) : List Nat :=
  ((l.answered calls).filter fun a => a.1.1 == caller && a.2.isOk).map (·.1.2)

/-- The number of calls of a caller before a time. -/
def callsBefore (caller : String) (finish : Nat) (calls : List (String × Nat)) : Nat :=
  calls.countP fun c => c.1 == caller && decide (c.2 < finish)

structure Ready (l : RateLimiter) : Prop where
  distinct : l.Distinct
  lasting : 0 < l.span
  room : 0 < l.limit.maxQueries

variable {l l' : RateLimiter} {caller : String} {now start finish : Nat}
  {calls rest : List (String × Nat)} {w : RateWindow}

theorem Ready.ofLimit {limit : RateLimit} (room : 1 ≤ limit.maxQueries)
    (lasting : 1 ≤ limit.windowSeconds) : (ofLimit limit).Ready :=
  ⟨List.nodup_nil, Nat.mul_pos (by decide) lasting, room⟩

theorem Ready.charge (h : l.Ready) (caller : String) (now : Nat) :
    (l.charge caller now).2.Ready := by
  refine ⟨h.distinct.charge caller now, ?_, ?_⟩
  · rw [charge_span]
    exact h.lasting
  · rw [charge_limit]
    exact h.room

theorem Ready.after (h : l.Ready) (calls : List (String × Nat)) : (l.after calls).Ready := by
  induction calls generalizing l with
  | nil => exact h
  | cons c rest ih => exact ih (h.charge c.1 c.2)

theorem after_limit (l : RateLimiter) (calls : List (String × Nat)) :
    (l.after calls).limit = l.limit := by
  induction calls generalizing l with
  | nil => rfl
  | cons c rest ih => rw [after_cons, ih, charge_limit]

/-- Two limiters that hold the same running windows for some of the callers. -/
structure Agree (among : String → Bool) (now : Nat) (l l' : RateLimiter) : Prop where
  limit : l.limit = l'.limit
  ready : l.Ready
  ready' : l'.Ready
  running : ∀ caller, among caller = true → l.running? caller now = l'.running? caller now

variable {among : String → Bool}

theorem Agree.refl (h : l.Ready) : Agree among now l l := ⟨rfl, h, h, fun _ _ => rfl⟩

theorem Agree.later {later : Nat} (h : Agree among now l l') (le : now ≤ later) :
    Agree among later l l' := by
  refine ⟨h.limit, h.ready, h.ready', fun caller mem => ?_⟩
  rw [running?_later le, running?_later le, h.running caller mem, isRunning_congr h.limit]

theorem Agree.windowAt (h : Agree among now l l') (mem : among caller = true) :
    l.windowAt caller now = l'.windowAt caller now := by
  rw [windowAt_eq, windowAt_eq, h.running caller mem]

theorem Agree.answer (h : Agree among now l l') (mem : among caller = true) :
    (l.charge caller now).1 = (l'.charge caller now).1 := by
  rw [charge_answer h.ready.distinct, charge_answer h.ready'.distinct, h.windowAt mem, h.limit,
    span_congr h.limit]

theorem charged_congr (h : l.limit = l'.limit) (w : RateWindow) : l.charged w = l'.charged w := by
  rw [charged, charged, h]

theorem Agree.charge (h : Agree among now l l') (mem : among caller = true) :
    Agree among now (l.charge caller now).2 (l'.charge caller now).2 := by
  refine ⟨?_, h.ready.charge _ _, h.ready'.charge _ _, fun other memOther => ?_⟩
  · rw [charge_limit, charge_limit, h.limit]
  · rw [running?_charge h.ready.distinct h.ready.lasting,
      running?_charge h.ready'.distinct h.ready'.lasting, h.windowAt mem, charged_congr h.limit,
      h.running other memOther]

theorem Agree.charge_left (h : Agree among now l l') (absent : among caller = false) :
    Agree among now (l.charge caller now).2 l' := by
  refine ⟨(charge_limit _ _ _).trans h.limit, h.ready.charge _ _, h.ready', fun other mem => ?_⟩
  have differs : other ≠ caller := fun same => by simp [same, absent] at mem
  rw [running?_charge h.ready.distinct h.ready.lasting, if_neg differs, h.running other mem]

/-- What some callers are answered is what they are answered without the calls of the others. -/
theorem Agree.answered_filter (h : Agree among now l l') (ordered : InOrder calls)
    (later : ∀ c ∈ calls, now ≤ c.2) :
    (l.answered calls).filter (fun a => among a.1.1) =
      l'.answered (calls.filter fun c => among c.1) := by
  induction calls generalizing l l' now with
  | nil => rfl
  | cons c rest ih =>
    obtain ⟨first, ordered⟩ := List.pairwise_cons.mp ordered
    have h := h.later (later c List.mem_cons_self)
    cases mem : among c.1 with
    | true =>
      simp only [answered, List.filter_cons, mem, if_true]
      rw [h.answer mem, ih (h.charge mem) ordered first]
    | false =>
      simp only [answered, List.filter_cons, mem, Bool.false_eq_true, if_false]
      rw [ih (h.charge_left mem) ordered first]

theorem Agree.answers (h : Agree (fun _ => true) now l l') (ordered : InOrder calls)
    (later : ∀ c ∈ calls, now ≤ c.2) : l.answers calls = l'.answers calls := by
  have same := h.answered_filter ordered later
  rw [List.filter_true, List.filter_true] at same
  rw [RateLimiter.answers, RateLimiter.answers, same]

theorem running?_of_full (h : l.Ready) (full : l.limit.maxQueries ≤ (l.windowAt caller now).count) :
    l.running? caller now = some (l.windowAt caller now) := by
  rw [windowAt_eq] at full ⊢
  cases found : l.running? caller now with
  | none =>
    rw [found] at full
    exact absurd h.room (Nat.not_lt.mpr full)
  | some w => rfl

theorem Ready.agree_of_rejected {failure : Failure} (h : l.Ready)
    (rejected : (l.charge caller now).1 = .error failure) :
    Agree (fun _ => true) now (l.charge caller now).2 l := by
  have full : l.limit.maxQueries ≤ (l.windowAt caller now).count := by
    rw [charge_answer h.distinct] at rejected
    split at rejected
    · next full => exact full
    · cases rejected
  refine ⟨charge_limit _ _ _, h.charge _ _, h, fun other _ => ?_⟩
  rw [running?_charge h.distinct h.lasting]
  split
  · next same => rw [same, running?_of_full h full, charged, if_pos full]
  · rfl

theorem answer_isOk (h : l.Ready) (caller : String) (now : Nat) :
    (l.charge caller now).1.isOk = decide ((l.windowAt caller now).count < l.limit.maxQueries) := by
  rw [charge_answer h.distinct]
  split
  · next full => simp [Except.isOk, Except.toBool, full]
  · next free => simpa [Except.isOk, Except.toBool] using free

theorem accepted_other (l : RateLimiter) {c : String × Nat} (differs : c.1 ≠ caller)
    (rest : List (String × Nat)) :
    l.accepted caller (c :: rest) = (l.charge c.1 c.2).2.accepted caller rest := by
  simp [accepted, answered, differs]

theorem accepted_own (h : l.Ready) (caller : String) (now : Nat) (rest : List (String × Nat)) :
    l.accepted caller ((caller, now) :: rest) =
      if (l.windowAt caller now).count < l.limit.maxQueries then
        now :: (l.charge caller now).2.accepted caller rest
      else (l.charge caller now).2.accepted caller rest := by
  simp only [accepted, answered, List.filter_cons, answer_isOk h, beq_self_eq_true, Bool.true_and,
    decide_eq_true_eq]
  split <;> rfl

theorem mem_of_mem_answered {a : (String × Nat) × Except Failure Unit}
    (mem : a ∈ l.answered calls) : a.1 ∈ calls := by
  induction calls generalizing l with
  | nil => exact absurd mem List.not_mem_nil
  | cons c rest ih =>
    obtain rfl | mem := List.mem_cons.mp mem
    · exact List.mem_cons_self
    · exact List.mem_cons_of_mem _ (ih mem)

theorem le_of_mem_accepted {t : Nat} (later : ∀ c ∈ calls, now ≤ c.2)
    (mem : t ∈ l.accepted caller calls) : now ≤ t := by
  obtain ⟨a, kept, rfl⟩ := List.mem_map.mp mem
  exact later a.1 (mem_of_mem_answered (List.mem_filter.mp kept).1)

theorem accepted_of_past (l : RateLimiter) (caller : String) (past : finish ≤ now)
    (later : ∀ c ∈ calls, now ≤ c.2) :
    (l.accepted caller calls).countP (· < finish) = 0 ∧ callsBefore caller finish calls = 0 := by
  constructor
  · refine List.countP_eq_zero.mpr fun t mem early => ?_
    have := le_of_mem_accepted later mem
    have := of_decide_eq_true early
    omega
  · refine List.countP_eq_zero.mpr fun c mem early => ?_
    have := later c mem
    have := of_decide_eq_true (Bool.and_eq_true_iff.mp early).2
    omega

theorem callsBefore_own (live : now < finish) (rest : List (String × Nat)) :
    callsBefore caller finish ((caller, now) :: rest) = callsBefore caller finish rest + 1 :=
  List.countP_cons_of_pos (by simpa using live)

theorem callsBefore_other {c : String × Nat} (differs : c.1 ≠ caller) (finish : Nat)
    (rest : List (String × Nat)) :
    callsBefore caller finish (c :: rest) = callsBefore caller finish rest :=
  List.countP_cons_of_neg (by simp [differs])

theorem running?_while {later : Nat} (running : l.running? caller now = some w) (le : now ≤ later)
    (live : later < w.start + l.span) : l.running? caller later = some w := by
  have runs := (running?_eq_some.mp running).2
  rw [running?_later le, running, Option.filter_some, if_pos]
  rw [isRunning_iff] at runs ⊢
  omega

theorem accepted_step (h : l.Ready) (window : l.windowAt caller now = w) (live : now < finish)
    (others : ((l.charge caller now).2.accepted caller rest).countP (· < finish) =
      min (l.limit.maxQueries - (l.charged w).count) (callsBefore caller finish rest)) :
    (l.accepted caller ((caller, now) :: rest)).countP (· < finish) =
      min (l.limit.maxQueries - w.count) (callsBefore caller finish ((caller, now) :: rest)) := by
  rw [accepted_own h, callsBefore_own live, window]
  split
  · next room =>
    rw [List.countP_cons_of_pos (by simpa using live), others, charged,
      if_neg (Nat.not_le.mpr room)]
    simp only
    omega
  · next full =>
    rw [others, charged, if_pos (Nat.le_of_not_lt full)]
    omega

/-- Of the calls that come while a window runs, the first are accepted, as many as there is room
for. -/
theorem accepted_while_running (h : l.Ready) (running : l.running? caller now = some w)
    (ordered : InOrder calls) (later : ∀ c ∈ calls, now ≤ c.2) :
    (l.accepted caller calls).countP (· < w.start + l.span) =
      min (l.limit.maxQueries - w.count) (callsBefore caller (w.start + l.span) calls) := by
  induction calls generalizing l w now with
  | nil => simp [accepted, answered, callsBefore]
  | cons c rest ih =>
    obtain ⟨first, inOrder⟩ := List.pairwise_cons.mp ordered
    by_cases live : c.2 < w.start + l.span
    case neg =>
      obtain ⟨none, noCall⟩ := accepted_of_past l caller (Nat.le_of_not_lt live)
        (List.forall_mem_cons.mpr ⟨Nat.le_refl _, first⟩)
      rw [none, noCall, Nat.min_zero]
    case pos =>
    have running := running?_while running (later c List.mem_cons_self) live
    have carried := running?_charge h.distinct h.lasting c.1 c.2 caller
    by_cases same : caller = c.1
    · obtain ⟨caller', now⟩ := c
      obtain rfl : caller = caller' := same
      have window := windowAt_of_running running
      rw [if_pos rfl, window] at carried
      have others := ih (h.charge caller now) carried inOrder first
      rw [charge_span, charge_limit, charged_start] at others
      exact accepted_step h window live others
    · rw [if_neg same, running] at carried
      have others := ih (h.charge c.1 c.2) carried inOrder first
      rw [charge_span, charge_limit] at others
      rw [accepted_other l (Ne.symm same), callsBefore_other (Ne.symm same), others]

theorem accepted_from_start (h : l.Ready) (ended : l.running? caller start = none)
    (ordered : InOrder ((caller, start) :: rest)) :
    (l.accepted caller ((caller, start) :: rest)).countP (· < start + l.span) =
      min l.limit.maxQueries (callsBefore caller (start + l.span) ((caller, start) :: rest)) := by
  obtain ⟨first, inOrder⟩ := List.pairwise_cons.mp ordered
  have window := windowAt_of_ended ended
  have carried := running?_charge h.distinct h.lasting caller start caller
  rw [if_pos rfl, window] at carried
  have others := accepted_while_running (h.charge caller start) carried inOrder first
  rw [charge_span, charge_limit, charged_start] at others
  exact accepted_step h window (Nat.lt_add_of_pos_right h.lasting) others

theorem countP_mono_finish {finish' : Nat} (le : finish ≤ finish') (times : List Nat) :
    times.countP (· < finish) ≤ times.countP (· < finish') := by
  refine List.countP_mono_left fun t _ early => ?_
  rw [decide_eq_true_eq] at early ⊢
  omega

theorem accepted_le_of_ended (h : l.Ready) (ended : l.running? caller now = none)
    (ordered : InOrder calls) (later : ∀ c ∈ calls, now ≤ c.2) (near : finish ≤ now + l.span) :
    (l.accepted caller calls).countP (· < finish) ≤ l.limit.maxQueries := by
  induction calls generalizing l now with
  | nil => simp [accepted, answered]
  | cons c rest ih =>
    obtain ⟨first, inOrder⟩ := List.pairwise_cons.mp ordered
    have now_le : now ≤ c.2 := later c List.mem_cons_self
    have ended : l.running? caller c.2 = none := by
      rw [running?_later now_le, ended, Option.filter_none]
    have near : finish ≤ c.2 + l.span := by omega
    by_cases same : caller = c.1
    · obtain ⟨caller', start⟩ := c
      obtain rfl : caller = caller' := same
      calc (l.accepted caller ((caller, start) :: rest)).countP (· < finish)
          ≤ (l.accepted caller ((caller, start) :: rest)).countP (· < start + l.span) :=
            countP_mono_finish near _
        _ = min l.limit.maxQueries _ := accepted_from_start h ended ordered
        _ ≤ l.limit.maxQueries := Nat.min_le_left _ _
    · have carried := running?_charge h.distinct h.lasting c.1 c.2 caller
      rw [if_neg same, ended] at carried
      have others := ih (h.charge c.1 c.2) carried inOrder first (by rwa [charge_span])
      rwa [accepted_other l (Ne.symm same), ← charge_limit l c.1 c.2]

theorem running?_of_past {later : Nat} (running : l.running? caller now = some w)
    (le : now ≤ later) (past : w.start + l.span ≤ later) : l.running? caller later = none := by
  rw [running?_later le, running, Option.filter_some, if_neg]
  rw [isRunning_iff]
  omega

theorem accepted_le_of_running (h : l.Ready) (running : l.running? caller now = some w)
    (ordered : InOrder calls) (later : ∀ c ∈ calls, now ≤ c.2) (near : finish ≤ now + l.span) :
    (l.accepted caller calls).countP (· < finish) ≤
      (l.limit.maxQueries - w.count) + l.limit.maxQueries := by
  induction calls generalizing l w now with
  | nil => simp [accepted, answered]
  | cons c rest ih =>
    obtain ⟨first, inOrder⟩ := List.pairwise_cons.mp ordered
    have now_le : now ≤ c.2 := later c List.mem_cons_self
    have near : finish ≤ c.2 + l.span := by omega
    by_cases live : c.2 < w.start + l.span
    case neg =>
      have ended := running?_of_past running now_le (Nat.le_of_not_lt live)
      exact Nat.le_add_left_of_le (accepted_le_of_ended h ended ordered
        (List.forall_mem_cons.mpr ⟨Nat.le_refl _, first⟩) near)
    case pos =>
    have running := running?_while running now_le live
    have carried := running?_charge h.distinct h.lasting c.1 c.2 caller
    by_cases same : caller = c.1
    · obtain ⟨caller', now⟩ := c
      obtain rfl : caller = caller' := same
      have window := windowAt_of_running running
      rw [if_pos rfl, window] at carried
      have others := ih (h.charge caller now) carried inOrder first (by rwa [charge_span])
      rw [charge_limit] at others
      rw [accepted_own h, window]
      split
      · next room =>
        rw [charged, if_neg (Nat.not_le.mpr room)] at others
        rw [List.countP_cons]
        simp only at others
        split <;> omega
      · next full => rwa [charged, if_pos (Nat.le_of_not_lt full)] at others
    · rw [if_neg same, running] at carried
      have others := ih (h.charge c.1 c.2) carried inOrder first (by rwa [charge_span])
      rwa [accepted_other l (Ne.symm same), ← charge_limit l c.1 c.2]

theorem Ready.accepted_le_twice (h : l.Ready) (caller : String) (ordered : InOrder calls)
    (later : ∀ c ∈ calls, now ≤ c.2) (near : finish ≤ now + l.span) :
    (l.accepted caller calls).countP (· < finish) ≤ 2 * l.limit.maxQueries := by
  cases running : l.running? caller now with
  | none =>
    have := accepted_le_of_ended h running ordered later near
    omega
  | some w =>
    have := accepted_le_of_running h running ordered later near
    omega

/-- In any stretch of the length of a window, calls of two windows at most are accepted. -/
theorem Ready.accepted_within (h : l.Ready) (caller : String) (ordered : InOrder calls)
    (start : Nat) :
    (l.accepted caller calls).countP (fun t => start ≤ t ∧ t < start + l.span) ≤
      2 * l.limit.maxQueries := by
  induction calls generalizing l with
  | nil => simp [accepted, answered]
  | cons c rest ih =>
    obtain ⟨first, inOrder⟩ := List.pairwise_cons.mp ordered
    by_cases reached : start ≤ c.2
    · have later : ∀ d ∈ c :: rest, start ≤ d.2 :=
        List.forall_mem_cons.mpr ⟨reached, fun d mem => Nat.le_trans reached (first d mem)⟩
      refine Nat.le_trans (List.countP_mono_left fun t _ within => ?_)
        (h.accepted_le_twice caller ordered later (Nat.le_refl _))
      rw [decide_eq_true_eq] at within ⊢
      exact within.2
    · have others := ih (h.charge c.1 c.2) inOrder
      rw [charge_span, charge_limit] at others
      by_cases same : caller = c.1
      · obtain ⟨caller', now⟩ := c
        obtain rfl : caller = caller' := same
        rw [accepted_own h]
        split
        · rwa [List.countP_cons_of_neg (by simp [reached])]
        · exact others
      · rwa [accepted_other l (Ne.symm same)]

/-- With some room in windows of some length, and calls in the order of their times:

* each caller gets the answers that it would get if its calls were the only ones;
* leaving a rejected call out changes none of the later answers;
* from a call that finds no running window, and so starts one, until that window ends, the calls of
  its caller are accepted up to `maxQueries`, and no more;
* in any half-open stretch of the length of a window, no more than twice as many are accepted. -/
theorem calls_paced (limit : RateLimit) (room : 1 ≤ limit.maxQueries)
    (lasting : 1 ≤ limit.windowSeconds) (calls : List (String × Nat)) (ordered : InOrder calls) :
    (∀ caller, (ofLimit limit).answersTo caller calls =
      (ofLimit limit).answers (calls.filter (·.1 == caller))) ∧
    (∀ before caller now rest failure, calls = before ++ (caller, now) :: rest →
      (((ofLimit limit).after before).charge caller now).1 = .error failure →
      ((ofLimit limit).after (before ++ [(caller, now)])).answers rest =
        ((ofLimit limit).after before).answers rest) ∧
    (∀ before caller start rest, calls = before ++ (caller, start) :: rest →
      ((ofLimit limit).after before).running? caller start = none →
      (((ofLimit limit).after before).accepted caller ((caller, start) :: rest)).countP
          (· < start + nanosPerSecond * limit.windowSeconds) =
        min limit.maxQueries
          (callsBefore caller (start + nanosPerSecond * limit.windowSeconds)
            ((caller, start) :: rest))) ∧
    ∀ caller start, ((ofLimit limit).accepted caller calls).countP
        (fun t => start ≤ t ∧ t < start + nanosPerSecond * limit.windowSeconds) ≤
      2 * limit.maxQueries := by
  have ready : (ofLimit limit).Ready := .ofLimit room lasting
  have suffix {before rest} (split : calls = before ++ rest) : InOrder rest :=
    (List.pairwise_append.mp (split ▸ ordered)).2.1
  have span : nanosPerSecond * limit.windowSeconds = (ofLimit limit).span := rfl
  rw [span]
  refine ⟨fun caller => ?alone, ?rejected, ?window, fun caller start => ?stretch⟩
  case alone =>
    have agree : Agree (· == caller) 0 (ofLimit limit) (ofLimit limit) := .refl ready
    exact congrArg (List.map (·.2)) (agree.answered_filter ordered fun _ _ => Nat.zero_le _)
  case rejected =>
    intro before caller now rest failure split rejected
    obtain ⟨first, inOrder⟩ := List.pairwise_cons.mp (suffix split)
    rw [after, List.foldl_append]
    exact ((ready.after before).agree_of_rejected rejected).answers inOrder first
  case window =>
    intro before caller start rest split ended
    have counted := accepted_from_start (ready.after before) ended (suffix split)
    rwa [span_congr (after_limit (ofLimit limit) before), after_limit] at counted
  case stretch => exact ready.accepted_within caller ordered start

/-- Two callers around the ends of windows of one second. The calls of `a` after 0.95 and 1.99
seconds are one too many. Windows are pruned by the calls after 1 and 2 seconds. -/
def burst : List (String × Nat) :=
  [("a", 0), ("a", 900000000), ("b", 950000000), ("a", 950000000), ("a", 1000000000),
    ("a", 1100000000), ("b", 1990000000), ("a", 1990000000), ("a", 2000000000)]

theorem calls_paced_burst :
    (ofLimit ⟨2, 1⟩).accepted "a" burst = [0, 900000000, 1000000000, 1100000000, 2000000000] ∧
    (ofLimit ⟨2, 1⟩).answersTo "a" burst =
      (ofLimit ⟨2, 1⟩).answers (burst.filter (·.1 == "a")) ∧
    ((ofLimit ⟨2, 1⟩).after (burst.take 4)).answers (burst.drop 4) =
      ((ofLimit ⟨2, 1⟩).after (burst.take 3)).answers (burst.drop 4) ∧
    (((ofLimit ⟨2, 1⟩).after (burst.take 4)).accepted "a" (burst.drop 4)).countP
        (· < 1000000000 + nanosPerSecond * 1) =
      min 2 (callsBefore "a" (1000000000 + nanosPerSecond * 1) (burst.drop 4)) ∧
    ((ofLimit ⟨2, 1⟩).accepted "a" burst).countP
        (fun t => 900000000 ≤ t ∧ t < 900000000 + nanosPerSecond * 1) ≤ 2 * 2 := by
  have ordered : InOrder burst := by
    unfold InOrder
    decide +kernel
  obtain ⟨alone, rejected, window, stretch⟩ :=
    calls_paced ⟨2, 1⟩ (by decide) (by decide) burst ordered
  refine ⟨by decide +kernel, alone "a", ?_, ?_, stretch "a" 900000000⟩
  · exact rejected (burst.take 3) "a" 950000000 (burst.drop 4) (.rateLimited 1) rfl
      (by decide +kernel)
  · exact window (burst.take 4) "a" 1000000000 (burst.drop 5) rfl (by decide +kernel)

end SqlEngine.RateLimiter
