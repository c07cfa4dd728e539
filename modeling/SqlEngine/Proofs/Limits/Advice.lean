import SqlEngine.Proofs.Limits.Tracking
import SqlEngine.Proofs.Number.Arithmetic

/-! What a rejected caller is told to wait. Doubles do not hold every part of a second, but they
hold all multiples of its 1024th part that matter here. Where all calls come at whole milliseconds,
what is left of a window lies between two of these multiples within its second, so rounding never
leads it past a whole second, and the advice is the number of seconds rounded up. Whoever follows it
finds the window ended. -/

namespace SqlEngine

namespace Binary64

def grain : Nat := 2 ^ (unitPlace - 10)

theorem one_eq_grain : one = 1024 * grain := by
  have split : unitPlace = 10 + (unitPlace - 10) := rfl
  rw [one_eq, grain, split, Nat.pow_add, ← split]

theorem grain_pos : 0 < grain := Nat.two_pow_pos _

theorem nearest_grain {k : Nat} (h : k < 2 ^ 53) : nearest (k * grain) = k * grain :=
  nearest_mul_pow h _

theorem roundUnits_grain {k : Nat} (h : k ≤ 1024 * 2 ^ 63) :
    roundUnits (k * grain) 1 < infinityMagnitude := by
  refine Nat.lt_of_le_of_lt (roundUnits_mono ?_) (roundUnits_lt (Nat.le_refl (2 ^ 63)))
  rw [one_eq_grain, ← Nat.mul_assoc, Nat.mul_comm _ 1024]
  exact Nat.mul_le_mul_right grain h

theorem nearest_between {low high n : Nat} (small : high < 2 ^ 53) (lower : low * grain ≤ n)
    (upper : n ≤ high * grain) : low * grain ≤ nearest n ∧ nearest n ≤ high * grain := by
  have ordered : low ≤ high := Nat.le_of_mul_le_mul_right (lower.trans upper) grain_pos
  rw [← nearest_grain (Nat.lt_of_le_of_lt ordered small), ← nearest_grain small]
  exact ⟨nearest_mono lower, nearest_mono upper⟩

theorem units_milliseconds {r low high : Nat} (h : r < 1000) (lower : 1000 * low ≤ 1024 * r)
    (upper : 1024 * r ≤ 1000 * high) (below : high < 1024) :
    ∃ n : Nat, ((ofNat (r * 1000000)).div (ofNat 1000000000)).isFinite = true ∧
      ((ofNat (r * 1000000)).div (ofNat 1000000000)).units = n ∧
      low * grain ≤ n ∧ n ≤ high * grain := by
  have small : r * 1000000 ≤ 2 ^ 53 := by omega
  have lowKept : nearest (low * grain) = low * grain := nearest_grain (by omega)
  have highKept : nearest (high * grain) = high * grain := nearest_grain (by omega)
  have bound : roundUnits (high * grain) 1 < infinityMagnitude := roundUnits_grain (by omega)
  have lower : low * grain * 1000000000 ≤ r * 1000000 * one := by
    rw [one_eq_grain]
    nlinarith [grain_pos]
  have upper : r * 1000000 * one ≤ high * grain * 1000000000 := by
    rw [one_eq_grain]
    nlinarith [grain_pos]
  exact units_div small (by decide) (by decide) lower upper lowKept highKept bound

theorem units_add_milliseconds {x : Binary64} {q n low high : Nat} (hq : q < 2 ^ 32)
    (finite : x.isFinite = true) (units : x.units = n) (lower : low * grain ≤ n)
    (upper : n ≤ high * grain) (below : high < 1024) :
    ∃ s : Nat, ((ofNat q).add x).units = s ∧ (1024 * q + low) * grain ≤ s ∧
      s ≤ (1024 * q + high) * grain := by
  obtain ⟨wholeFinite, -, wholeUnits⟩ := units_ofNat (n := q) (by omega)
  have room : 1024 * q + high < 2 ^ 53 ∧ 1024 * q + high ≤ 1024 * 2 ^ 63 := by omega
  have whole : q * one = 1024 * q * grain := by
    rw [one_eq_grain]
    ring
  have lower : (1024 * q + low) * grain ≤ q * one + n := by
    rw [whole, Nat.add_mul]
    exact Nat.add_le_add_left lower _
  have upper : q * one + n ≤ (1024 * q + high) * grain := by
    rw [whole, Nat.add_mul]
    exact Nat.add_le_add_left upper _
  have bound := Nat.lt_of_le_of_lt (roundUnits_mono upper) (roundUnits_grain room.2)
  refine ⟨_, units_add wholeFinite finite (by exact_mod_cast wholeUnits) units bound, ?_⟩
  exact nearest_between room.1 lower upper

end Binary64

namespace RateLimiter

open Binary64

theorem ceil_seconds_between (low high : Nat) {milliseconds seconds : Nat}
    (h : milliseconds < 2 ^ 32 * 1000) (lower : 1000 * low ≤ 1024 * (milliseconds % 1000))
    (upper : 1024 * (milliseconds % 1000) ≤ 1000 * high) (below : high < 1024)
    (beyond : 1024 * seconds < 1024 * (milliseconds / 1000 + 1) + low)
    (within : 1024 * (milliseconds / 1000) + high ≤ 1024 * seconds) :
    ((ofNat (milliseconds / 1000)).add
      ((ofNat (milliseconds % 1000 * 1000000)).div (ofNat 1000000000))).ceil = seconds := by
  have few : milliseconds / 1000 < 2 ^ 32 := by omega
  have positive : (0 : Int) < grain := by exact_mod_cast grain_pos
  obtain ⟨n, finite, units, lower, upper⟩ :=
    units_milliseconds (Nat.mod_lt _ (by decide)) lower upper below
  obtain ⟨s, sum, above, atMost⟩ := units_add_milliseconds few finite units lower upper below
  refine ceil_eq ?_ ?_
  · rw [sum, one_eq_grain]
    calc (seconds - 1 : Int) * (1024 * grain : Nat) = 1024 * (seconds - 1) * grain := by
          push_cast
          ring
      _ < (1024 * (milliseconds / 1000) + low : Nat) * grain :=
        mul_lt_mul_of_pos_right (by omega) positive
      _ ≤ s := by exact_mod_cast above
  · rw [sum, one_eq_grain]
    calc (s : Int) ≤ ((1024 * (milliseconds / 1000) + high) * grain : Nat) := by
          exact_mod_cast atMost
      _ ≤ (1024 * seconds * grain : Nat) := by exact_mod_cast Nat.mul_le_mul_right grain within
      _ = seconds * (1024 * grain : Nat) := by
        push_cast
        ring

theorem ceil_seconds {milliseconds : Nat} (h : milliseconds < 2 ^ 32 * 1000) :
    ((ofNat (milliseconds / 1000)).add
      ((ofNat (milliseconds % 1000 * 1000000)).div (ofNat 1000000000))).ceil =
        ((milliseconds + 999) / 1000 : Nat) := by
  rcases Nat.eq_zero_or_pos (milliseconds % 1000) with whole | rest
  · exact ceil_seconds_between 0 0 h (by omega) (by omega) (by decide) (by omega) (by omega)
  · exact ceil_seconds_between 1 1023 h (by omega) (by omega) (by decide) (by omega) (by omega)

/-- The advice in whole numbers. -/
theorem retryAfter_eq {milliseconds : Nat} (h : milliseconds < 2 ^ 32 * 1000) :
    retryAfter (milliseconds * 1000000) = max 1 ((milliseconds + 999) / 1000) := by
  have whole : milliseconds * 1000000 / nanosPerSecond = milliseconds / 1000 :=
    Nat.mul_div_mul_right milliseconds 1000 (by decide : 0 < 1000000)
  have rest : milliseconds * 1000000 % nanosPerSecond = milliseconds % 1000 * 1000000 :=
    Nat.mul_mod_mul_right 1000000 milliseconds 1000
  have bound : (milliseconds + 999) / 1000 ≤ maxWord := by
    unfold maxWord
    omega
  have seconds := ceil_seconds h
  simp only [retryAfter, whole, rest]
  rw [nanosPerSecond, seconds, Int.toNat_natCast, Nat.min_eq_right bound]

variable {l : RateLimiter} {caller : String} {now later : Nat}
  {calls : List (String × Nat)} {w : RateWindow}

theorem Ready.madeAt {limit : RateLimit} (room : 1 ≤ limit.maxQueries)
    (lasting : 1 ≤ limit.windowSeconds) (made : Nat) : (madeAt limit made).Ready :=
  ⟨List.nodup_nil, Nat.mul_pos (by decide) lasting, room⟩

theorem Ready.rejected (h : l.Ready) (running : l.running? caller now = some w)
    (full : l.limit.maxQueries ≤ w.count) : (l.charge caller now).1 =
      .error (.rateLimited (retryAfter (l.span - (now - w.start)))) := by
  rw [charge_answer h.distinct, windowAt_of_running running, if_pos full]

theorem Ready.full_of_error {failure : Failure} (h : l.Ready)
    (rejected : (l.charge caller now).1 = .error failure) :
    ∃ w, l.running? caller now = some w ∧ l.limit.maxQueries ≤ w.count ∧
      failure = .rateLimited (retryAfter (l.span - (now - w.start))) := by
  rw [charge_answer h.distinct] at rejected
  split at rejected
  · next full => exact ⟨_, running?_of_full h full, full, (Except.error.inj rejected).symm⟩
  · cases rejected

theorem Ready.ok_of_ended (h : l.Ready) (ended : l.running? caller now = none) :
    (l.charge caller now).1 = .ok () := by
  rw [charge_answer h.distinct, windowAt_of_ended ended, if_neg (Nat.not_le.mpr h.room)]

/-- A full window stays as it is until it ends. -/
theorem running?_after_full (h : l.Ready) (running : l.running? caller now = some w)
    (full : l.limit.maxQueries ≤ w.count) (ordered : InOrder calls)
    (since : ∀ c ∈ calls, now ≤ c.2) (early : ∀ c ∈ calls, c.2 ≤ later) (le : now ≤ later)
    (live : later < w.start + l.span) : (l.after calls).running? caller later = some w := by
  induction calls generalizing l now with
  | nil => exact running?_while running le live
  | cons c rest ih =>
    obtain ⟨first, inOrder⟩ := List.pairwise_cons.mp ordered
    obtain ⟨reached, early⟩ := List.forall_mem_cons.mp early
    have running := running?_while running (since c List.mem_cons_self)
      (Nat.lt_of_le_of_lt reached live)
    have carried : (l.charge c.1 c.2).2.running? caller c.2 = some w := by
      rw [running?_charge h.distinct h.lasting]
      split
      · next same => rw [← same, windowAt_of_running running, charged, if_pos full]
      · exact running
    refine ih (h.charge c.1 c.2) carried ?_ inOrder first early reached ?_
    · rwa [charge_limit]
    · rwa [charge_span]

theorem running?_after_others (h : l.Ready) (others : ∀ c ∈ calls, c.1 ≠ caller)
    (early : ∀ c ∈ calls, c.2 ≤ later) :
    (l.after calls).running? caller later = l.running? caller later := by
  induction calls generalizing l with
  | nil => rfl
  | cons c rest ih =>
    obtain ⟨other, others⟩ := List.forall_mem_cons.mp others
    obtain ⟨reached, early⟩ := List.forall_mem_cons.mp early
    calc ((l.charge c.1 c.2).2.after rest).running? caller later
        = (l.charge c.1 c.2).2.running? caller later := ih (h.charge c.1 c.2) others early
      _ = ((l.charge c.1 c.2).2.running? caller c.2).filter (l.isRunning later) := by
        rw [running?_later reached, isRunning_congr (charge_limit l c.1 c.2)]
      _ = (l.running? caller c.2).filter (l.isRunning later) := by
        rw [running?_charge h.distinct h.lasting, if_neg (Ne.symm other)]
      _ = l.running? caller later := (running?_later reached).symm

theorem Started.start_of_running (h : l.Started calls) (early : ∀ c ∈ calls, c.2 ≤ now)
    (running : l.running? caller now = some w) : w.start ≤ now ∧ (caller, w.start) ∈ calls := by
  obtain ⟨e, found, rfl⟩ := Option.map_eq_some_iff.mp (running?_eq_some.mp running).1
  have own : e.1 = caller := by simpa using List.find?_some found
  have start := h e (List.mem_of_find?_eq_some found)
  exact ⟨early _ start, own ▸ start⟩

theorem retryAfter_bounds {remaining : Nat} (whole : 1000000 ∣ remaining) (some : 0 < remaining)
    (h : remaining < nanosPerSecond * 2 ^ 32) :
    1 ≤ retryAfter remaining ∧
      nanosPerSecond * retryAfter remaining < remaining + nanosPerSecond ∧
      remaining ≤ nanosPerSecond * retryAfter remaining := by
  obtain ⟨milliseconds, rfl⟩ := whole
  unfold nanosPerSecond at h ⊢
  rw [Nat.mul_comm 1000000, retryAfter_eq (by omega)]
  omega

/-- A call that is rejected finds a full window that still runs, and the advice leads to its end
but not a second further. -/
theorem Ready.advised {failure : Failure} (h : l.Ready) (short : l.limit.windowSeconds < 2 ^ 32)
    (started : l.Started calls) (early : ∀ c ∈ calls, c.2 ≤ now)
    (whole : ∀ c ∈ (caller, now) :: calls, 1000000 ∣ c.2)
    (rejected : (l.charge caller now).1 = .error failure) :
    ∃ seconds w, failure = .rateLimited seconds ∧ l.running? caller now = some w ∧
      l.limit.maxQueries ≤ w.count ∧ w.start ≤ now ∧ now < w.start + l.span ∧ 1 ≤ seconds ∧
      nanosPerSecond * seconds < w.start + l.span - now + nanosPerSecond ∧
      w.start + l.span ≤ now + nanosPerSecond * seconds := by
  obtain ⟨w, running, full, rfl⟩ := h.full_of_error rejected
  obtain ⟨past, start⟩ := started.start_of_running early running
  have runs := isRunning_iff.mp (running?_eq_some.mp running).2
  have length : l.span < nanosPerSecond * 2 ^ 32 := Nat.mul_lt_mul_of_pos_left short (by decide)
  have second : 1000000 ∣ l.span := Dvd.dvd.mul_right (by decide) _
  have left : 1000000 ∣ l.span - (now - w.start) :=
    Nat.dvd_sub second (Nat.dvd_sub (whole _ List.mem_cons_self)
      (whole _ (List.mem_cons_of_mem _ start)))
  obtain ⟨least, most, enough⟩ := retryAfter_bounds left (by omega) (by omega)
  exact ⟨_, w, rfl, running, full, past, by omega, least, by omega, by omega⟩

theorem InOrder.between {first last : String × Nat} {between rest : List (String × Nat)}
    (h : InOrder (first :: (between ++ last :: rest))) : InOrder between ∧
      (∀ c ∈ between, first.2 ≤ c.2) ∧ (∀ c ∈ between, c.2 ≤ last.2) ∧ first.2 ≤ last.2 := by
  obtain ⟨start, inOrder⟩ := List.pairwise_cons.mp h
  obtain ⟨inOrder, -, early⟩ := List.pairwise_append.mp inOrder
  exact ⟨inOrder, fun c mem => start c (List.mem_append_left _ mem),
    fun c mem => early c mem last List.mem_cons_self,
    start last (List.mem_append_right _ List.mem_cons_self)⟩

variable {between rest : List (String × Nat)}

theorem Ready.rejected_until (h : l.Ready) (running : l.running? caller now = some w)
    (full : l.limit.maxQueries ≤ w.count)
    (ordered : InOrder ((caller, now) :: (between ++ (caller, later) :: rest)))
    (live : later < w.start + l.span) :
    ∃ seconds, ((l.after ((caller, now) :: between)).charge caller later).1 =
      .error (.rateLimited seconds) := by
  obtain ⟨inOrder, since, early, le⟩ := ordered.between
  have inOrder : InOrder ((caller, now) :: between) := List.pairwise_cons.mpr ⟨since, inOrder⟩
  have carried := running?_after_full h running full inOrder
    (List.forall_mem_cons.mpr ⟨Nat.le_refl _, since⟩) (List.forall_mem_cons.mpr ⟨le, early⟩) le live
  have answer := (h.after ((caller, now) :: between)).rejected carried (by rwa [after_limit])
  exact ⟨_, answer⟩

theorem Ready.accepted_next (h : l.Ready) (running : l.running? caller now = some w)
    (full : l.limit.maxQueries ≤ w.count)
    (ordered : InOrder ((caller, now) :: (between ++ (caller, later) :: rest)))
    (others : ∀ c ∈ between, c.1 ≠ caller) (past : w.start + l.span ≤ later) :
    ((l.after ((caller, now) :: between)).charge caller later).1 = .ok () := by
  obtain ⟨-, -, early, le⟩ := ordered.between
  have carried : (l.charge caller now).2.running? caller now = some w := by
    rw [running?_charge h.distinct h.lasting, if_pos rfl, windowAt_of_running running, charged,
      if_pos full]
  have ended : (l.charge caller now).2.running? caller later = none :=
    running?_of_past carried le (by rwa [charge_span])
  rw [← running?_after_others (h.charge caller now) others early] at ended
  exact ((h.charge caller now).after between).ok_of_ended ended

/-- With some room in windows of some length, and calls at whole milliseconds and in the order of
their times, every call that is rejected is told a number of seconds, at least one and less than one
more than what is left of the window that rejects it:

* until this window ends, all calls of the caller are rejected;
* the next call of the caller is accepted if it comes when these seconds have passed, or later.

When the limiter was made does not matter, nor do the calls of others, which may drop windows. -/
theorem retry_advised (limit : RateLimit) (room : 1 ≤ limit.maxQueries)
    (lasting : 1 ≤ limit.windowSeconds) (short : limit.windowSeconds < 2 ^ 32) (made : Nat)
    (calls : List (String × Nat)) (ordered : InOrder calls)
    (whole : ∀ c ∈ calls, 1000000 ∣ c.2) :
    ∀ before caller now rest failure, calls = before ++ (caller, now) :: rest →
      (((madeAt limit made).after before).charge caller now).1 = .error failure →
      ∃ seconds w, failure = .rateLimited seconds ∧
        ((madeAt limit made).after before).running? caller now = some w ∧
        w.start ≤ now ∧ now < w.start + nanosPerSecond * limit.windowSeconds ∧ 1 ≤ seconds ∧
        nanosPerSecond * seconds <
          w.start + nanosPerSecond * limit.windowSeconds - now + nanosPerSecond ∧
        (∀ between later rest', rest = between ++ (caller, later) :: rest' →
          later < w.start + nanosPerSecond * limit.windowSeconds →
          ∃ seconds', (((madeAt limit made).after (before ++ (caller, now) :: between)).charge
            caller later).1 = .error (.rateLimited seconds')) ∧
        ∀ between later rest', rest = between ++ (caller, later) :: rest' →
          (∀ c ∈ between, c.1 ≠ caller) → now + nanosPerSecond * seconds ≤ later →
          (((madeAt limit made).after (before ++ (caller, now) :: between)).charge
            caller later).1 = .ok () := by
  rintro before caller now rest failure rfl rejected
  obtain ⟨-, suffix, early⟩ := List.pairwise_append.mp ordered
  have early : ∀ c ∈ before, c.2 ≤ now := fun c mem => early c mem _ List.mem_cons_self
  have whole : ∀ c ∈ (caller, now) :: before, 1000000 ∣ c.2 := fun c mem => whole c (by
    rw [List.mem_append]
    obtain rfl | mem := List.mem_cons.mp mem
    · exact .inr List.mem_cons_self
    · exact .inl mem)
  have started := started_madeAt limit made before
  have ready := (Ready.madeAt room lasting made).after before
  have kept : ((madeAt limit made).after before).limit = limit := after_limit _ before
  have span : nanosPerSecond * limit.windowSeconds = ((madeAt limit made).after before).span := by
    rw [after_span, madeAt_span]
  simp only [after_append, span]
  generalize (madeAt limit made).after before = l at *
  obtain ⟨seconds, w, told, running, full, past, live, least, most, enough⟩ :=
    ready.advised (by rwa [kept]) started early whole rejected
  refine ⟨seconds, w, told, running, past, live, least, most, ?_, ?_⟩
  · rintro between later rest' rfl soon
    exact ready.rejected_until running full suffix soon
  · rintro between later rest' rfl others waited
    exact ready.accepted_next running full suffix others (Nat.le_trans enough waited)

/-- The second and the third call of `a` are one too many, with 1.7 seconds and with a millisecond
left. Windows are dropped by the call of `b` after 2.05 seconds. -/
def waiting : List (String × Nat) :=
  [("a", 0), ("b", 100000000), ("a", 300000000), ("a", 1999000000), ("b", 2050000000),
    ("a", 2999000000)]

theorem retry_advised_waiting :
    (((madeAt ⟨1, 2⟩ 0).after (waiting.take 2)).charge "a" 300000000).1 =
      .error (.rateLimited 2) ∧
    (((madeAt ⟨1, 2⟩ 0).after (waiting.take 3)).charge "a" 1999000000).1 =
      .error (.rateLimited 1) ∧
    (((madeAt ⟨1, 2⟩ 0).after (waiting.take 3 ++ ("a", 1999000000) :: [("b", 2050000000)])).charge
      "a" 2999000000).1 = .ok () := by
  have ordered : InOrder waiting := by
    unfold InOrder
    decide +kernel
  have advised := retry_advised ⟨1, 2⟩ (by decide) (by decide) (by decide) 0 waiting ordered
    (by decide +kernel)
  have first : (((madeAt ⟨1, 2⟩ 0).after (waiting.take 2)).charge "a" 300000000).1 =
      .error (.rateLimited 2) := by decide +kernel
  have second : (((madeAt ⟨1, 2⟩ 0).after (waiting.take 3)).charge "a" 1999000000).1 =
      .error (.rateLimited 1) := by decide +kernel
  obtain ⟨seconds, w, told, -, -, -, -, -, -, next⟩ := advised _ "a" 1999000000 _ _ rfl second
  obtain rfl : 1 = seconds := Failure.rateLimited.inj told
  exact ⟨first, second, next [("b", 2050000000)] 2999000000 [] rfl (by decide) (by decide)⟩

end RateLimiter
end SqlEngine
