import Mathlib.Tactic.Ring
import Mathlib.Tactic.SplitIfs
import SqlEngine.Condition.CompiledPattern
import SqlEngine.Proofs.Condition.Pattern

/-! Whatever form a pattern is compiled to, it accepts the texts that match the pattern. The loop over
segments goes back to the last percent sign only: what could follow an earlier one, had it taken
more, can follow the last one too. It ends, and a bound on its rounds is the product of the lengths. -/

namespace SqlEngine

open Pattern

namespace Segment

def Accepts : List Segment → List Char → Prop
  | [], text => text = []
  | anyRun :: rest, text => ∃ more, more <:+ text ∧ Accepts rest more
  | anyOne :: rest, text => ∃ d more, text = d :: more ∧ Accepts rest more
  | only c :: rest, text => ∃ more, text = c :: more ∧ Accepts rest more

theorem accepts_before (s : Segment) (rest : List Segment) (text : List Char) :
    Accepts (s.before rest) text ↔ Accepts (s :: rest) text := by
  unfold before
  split
  · next rest =>
    constructor
    · exact fun accepted => ⟨text, List.suffix_rfl, accepted⟩
    · rintro ⟨more, inside, last, deeper, accepted⟩
      exact ⟨last, deeper.trans inside, accepted⟩
  · rfl

theorem accepts_ofPattern {pattern text : List Char} :
    Accepts (ofPattern pattern) text ↔ Matches pattern text := by
  induction pattern generalizing text with
  | nil => rfl
  | cons c pattern ih =>
    rw [ofPattern, accepts_before, ofChar]
    by_cases percent : c = '%'
    · subst percent
      simp only [if_true, Accepts, ih, matches_percent]
    · rw [if_neg percent, matches_cons percent]
      by_cases underscore : c = '_'
      · subst underscore
        simp [Accepts, ih]
      · rw [if_neg underscore]
        simp [Accepts, ih, underscore]

theorem exists_of_accepts_append {piece more : List Segment} (solid : ∀ s ∈ piece, s ≠ anyRun)
    {text : List Char} (h : Accepts (piece ++ more) text) :
    ∃ passed rest, text = passed ++ rest ∧ passed.length = piece.length ∧ Accepts more rest := by
  induction piece generalizing text with
  | nil => exact ⟨[], text, rfl, rfl, h⟩
  | cons s piece ih =>
    rw [List.forall_mem_cons] at solid
    have one : ∃ d rest, text = d :: rest ∧ Accepts (piece ++ more) rest := by
      cases s with
      | anyRun => exact absurd rfl solid.1
      | anyOne => exact h
      | only c =>
        obtain ⟨rest, split, accepted⟩ := h
        exact ⟨c, rest, split, accepted⟩
    obtain ⟨d, rest, rfl, accepted⟩ := one
    obtain ⟨passed, last, rfl, length, accepted⟩ := ih solid.2 accepted
    exact ⟨d :: passed, last, rfl, by simp [length], accepted⟩

theorem accepts_nil {segments : List Segment} :
    Accepts segments [] ↔ segments.all (· == anyRun) = true := by
  induction segments with
  | nil => simp [Accepts]
  | cons s rest ih => cases s <;> simp [Accepts, ih]

end Segment

namespace Trial

open Segment

variable {t next : Trial}

def Succeeds (t : Trial) : Prop :=
  Accepts t.segments t.text ∨ ∃ behind tried, t.resume = some (behind, tried) ∧
    ∃ later, later <:+ tried ∧ later.length < tried.length ∧ Accepts behind later

/-- What was passed since the last percent sign is a piece without another one. -/
def Sound (t : Trial) : Prop :=
  ∀ behind tried, t.resume = some (behind, tried) → ∃ piece passed, (∀ s ∈ piece, s ≠ anyRun) ∧
    behind = piece ++ t.segments ∧ tried = passed ++ t.text ∧ passed.length = piece.length

def Settles (t : Trial) : Trial ⊕ Bool → Prop
  | .inl next => next.Sound ∧ (next.Succeeds ↔ t.Succeeds)
  | .inr answer => answer = true ↔ t.Succeeds

theorem sound_resumed (behind : List Segment) (text : List Char) :
    Sound ⟨text, behind, some (behind, text)⟩ := by
  intro _ _ same
  cases same
  exact ⟨[], [], nofun, rfl, rfl, rfl⟩

theorem Sound.retry (stuck : ¬Accepts t.segments t.text) : t.Settles t.retry := by
  unfold Trial.retry
  split
  · next behind c text resumed =>
    refine ⟨sound_resumed behind text, ?_⟩
    unfold Succeeds
    simp only [resumed, Option.some.injEq, Prod.mk.injEq, stuck, false_or]
    constructor
    · rintro (here | ⟨_, _, ⟨rfl, rfl⟩, later, inside, shorter, accepted⟩)
      · exact ⟨_, _, ⟨rfl, rfl⟩, text, List.suffix_cons c text, Nat.lt_succ_self _, here⟩
      · exact ⟨_, _, ⟨rfl, rfl⟩, later, inside.trans (List.suffix_cons c _),
          Nat.lt_succ_of_lt shorter, accepted⟩
    · rintro ⟨_, _, ⟨rfl, rfl⟩, later, inside, shorter, accepted⟩
      rcases List.suffix_cons_iff.mp inside with rfl | inside
      · exact absurd shorter (Nat.lt_irrefl _)
      · rcases Nat.lt_or_eq_of_le inside.length_le with shorter | same
        · exact .inr ⟨_, _, ⟨rfl, rfl⟩, later, inside, shorter, accepted⟩
        · exact .inl (inside.eq_of_length same ▸ accepted)
  · next none =>
    unfold Settles Succeeds
    simp only [Bool.false_eq_true, stuck, false_or, false_iff, not_exists, not_and]
    intro behind tried resumed later inside shorter
    cases tried with
    | nil => exact absurd shorter (Nat.not_lt_zero _)
    | cons c text => exact absurd resumed (none behind c text)

theorem Sound.pass {s : Segment} {c : Char} {text : List Char} {rest : List Segment}
    {resume : Option (List Segment × List Char)} (h : Sound ⟨c :: text, s :: rest, resume⟩)
    (solid : s ≠ anyRun) (one : Accepts (s :: rest) (c :: text) ↔ Accepts rest text) :
    Settles ⟨c :: text, s :: rest, resume⟩ (.inl ⟨text, rest, resume⟩) := by
  refine ⟨fun behind tried resumed => ?_, ?_⟩
  · obtain ⟨piece, passed, others, rfl, rfl, length⟩ := h behind tried resumed
    refine ⟨piece ++ [s], passed ++ [c], ?_, by simp, by simp, by simp [length]⟩
    exact List.forall_mem_append.mpr ⟨others, List.forall_mem_singleton.mpr solid⟩
  · simp only [Succeeds, one]

theorem Sound.exists_later (h : t.Sound) {behind : List Segment} {tried later : List Char}
    (resumed : t.resume = some (behind, tried)) (inside : later <:+ tried)
    (shorter : later.length < tried.length) (accepted : Accepts behind later) :
    ∃ more, more <:+ t.text ∧ more.length < t.text.length ∧ Accepts t.segments more := by
  obtain ⟨piece, passed, solid, rfl, rfl, length⟩ := h behind tried resumed
  obtain ⟨start, more, rfl, startLength, accepted⟩ := exists_of_accepts_append solid accepted
  rw [List.length_append, List.length_append] at shorter
  have less : more.length < t.text.length := by omega
  have last : more <:+ passed ++ t.text := (List.suffix_append start more).trans inside
  exact ⟨more, List.suffix_of_suffix_length_le last (List.suffix_append passed _)
    (Nat.le_of_lt less), less, accepted⟩

theorem Sound.anyRun {c : Char} {text : List Char} {rest : List Segment}
    {resume : Option (List Segment × List Char)} (h : Sound ⟨c :: text, .anyRun :: rest, resume⟩) :
    Settles ⟨c :: text, .anyRun :: rest, resume⟩
      (.inl ⟨c :: text, rest, some (rest, c :: text)⟩) := by
  have here : Succeeds ⟨c :: text, rest, some (rest, c :: text)⟩ ↔
      Accepts (.anyRun :: rest) (c :: text) := by
    simp only [Succeeds, Option.some.injEq, Prod.mk.injEq, Accepts]
    constructor
    · rintro (accepted | ⟨_, _, ⟨rfl, rfl⟩, later, inside, -, accepted⟩)
      · exact ⟨c :: text, List.suffix_rfl, accepted⟩
      · exact ⟨later, inside, accepted⟩
    · rintro ⟨later, inside, accepted⟩
      rcases Nat.lt_or_eq_of_le inside.length_le with shorter | same
      · exact .inr ⟨_, _, ⟨rfl, rfl⟩, later, inside, shorter, accepted⟩
      · exact .inl (inside.eq_of_length same ▸ accepted)
  refine ⟨sound_resumed rest _, here.trans ⟨.inl, ?_⟩⟩
  rintro (accepted | ⟨behind, tried, resumed, later, inside, shorter, accepted⟩)
  · exact accepted
  · obtain ⟨more, inside, -, last, deeper, accepted⟩ :=
      h.exists_later resumed inside shorter accepted
    exact ⟨last, deeper.trans inside, accepted⟩

theorem Sound.step (h : t.Sound) : t.Settles t.step := by
  obtain ⟨text, segments, resume⟩ := t
  cases text with
  | nil =>
    show (segments.all (· == .anyRun)) = true ↔ Succeeds _
    rw [← accepts_nil]
    refine ⟨.inl, ?_⟩
    rintro (accepted | ⟨behind, tried, resumed, later, inside, shorter, accepted⟩)
    · exact accepted
    · obtain ⟨more, -, less, -⟩ := h.exists_later resumed inside shorter accepted
      exact absurd less (Nat.not_lt_zero _)
  | cons c text =>
    cases segments with
    | nil => exact retry nofun
    | cons s rest =>
      cases s with
      | anyRun => exact h.anyRun
      | anyOne => exact h.pass nofun (by simp [Accepts])
      | only d =>
        show Settles _ (if d = c then .inl ⟨text, rest, resume⟩ else _)
        split
        · next same => exact h.pass nofun (by simp [Accepts, same])
        · next differs => exact retry (by simp [Accepts, Ne.symm differs])

theorem Sound.answer (h : t.Sound) : t.answer = true ↔ t.Succeeds := by
  induction t using Trial.answer.induct with
  | case1 t next on ih =>
    have settled := h.step
    rw [on] at settled
    rw [Trial.answer, on]
    exact (ih settled.1).trans settled.2
  | case2 t answer done =>
    have settled := h.step
    rw [done] at settled
    rw [Trial.answer, done]
    exact settled

theorem answer_start (segments : List Segment) (text : List Char) :
    (start segments text).answer = true ↔ Accepts segments text := by
  have sound : (start segments text).Sound := nofun
  rw [sound.answer]
  simp [Succeeds, start]

inductive Ends : Trial → (rounds : Nat) → (answer : Bool) → Prop where
  | now {t : Trial} {answer : Bool} (done : t.step = .inr answer) : Ends t 1 answer
  | later {t next : Trial} {rounds : Nat} {answer : Bool} (on : t.step = .inl next)
      (rest : Ends next rounds answer) : Ends t (rounds + 1) answer

/-- No text or pattern grows beyond what the last percent sign has left behind it. -/
structure Fits (size : Nat) (t : Trial) : Prop where
  segments : t.segments.length ≤ size
  behind : ∀ behind tried, t.resume = some (behind, tried) →
    behind.length ≤ size ∧ t.text.length ≤ tried.length

def left (size : Nat) (t : Trial) : Nat :=
  (match t.resume with
    | some (_, tried) => tried.length
    | none => t.text.length + 1) * (size + 1) + t.segments.length

theorem Fits.retry {size : Nat} (h : t.Fits size) (on : t.retry = .inl next) :
    next.Fits size ∧ next.left size < t.left size := by
  unfold Trial.retry at on
  split at on
  · next behind c text resumed =>
    obtain rfl := Sum.inl.inj on
    have bound := (h.behind _ _ resumed).1
    refine ⟨⟨bound, ?_⟩, ?_⟩
    · intro _ _ same
      cases same
      exact ⟨bound, Nat.le_refl _⟩
    · simp only [left, resumed, List.length_cons, Nat.succ_mul]
      omega
  · cases on

theorem Fits.step {size : Nat} (h : t.Fits size) (on : t.step = .inl next) :
    next.Fits size ∧ next.left size < t.left size := by
  obtain ⟨text, segments, resume⟩ := t
  cases text with
  | nil => cases on
  | cons c text =>
    cases segments with
    | nil => exact h.retry on
    | cons s rest =>
      have fewer : rest.length < size := h.segments
      have pass : (⟨text, rest, resume⟩ : Trial).Fits size ∧
          left size ⟨text, rest, resume⟩ < left size ⟨c :: text, s :: rest, resume⟩ := by
        refine ⟨⟨Nat.le_of_lt fewer, fun behind tried resumed => ?_⟩, ?_⟩
        · have := h.behind behind tried resumed
          exact ⟨this.1, Nat.le_trans (Nat.le_succ _) this.2⟩
        · cases resume <;> simp only [left, List.length_cons, Nat.succ_mul] <;> omega
      cases s with
      | anyRun =>
        obtain rfl := Sum.inl.inj on
        refine ⟨⟨Nat.le_of_lt fewer, ?_⟩, ?_⟩
        · intro _ _ same
          cases same
          exact ⟨Nat.le_of_lt fewer, Nat.le_refl _⟩
        · cases resume with
          | none =>
            simp only [left, List.length_cons, Nat.succ_mul]
            omega
          | some pair =>
            have := Nat.mul_le_mul_right (size + 1) (h.behind _ _ rfl).2
            simp only [left, List.length_cons] at this ⊢
            omega
      | anyOne =>
        obtain rfl := Sum.inl.inj on
        exact pass
      | only d =>
        have on : (if d = c then .inl ⟨text, rest, resume⟩ else Trial.retry _) = .inl next := on
        split at on
        · obtain rfl := Sum.inl.inj on
          exact pass
        · exact h.retry on

theorem Fits.ends {size : Nat} (h : t.Fits size) :
    ∃ rounds ≤ t.left size + 1, t.Ends rounds t.answer := by
  induction t using Trial.answer.induct with
  | case1 t next on ih =>
    obtain ⟨fits, less⟩ := h.step on
    obtain ⟨rounds, bound, ends⟩ := ih fits
    rw [Trial.answer, on]
    exact ⟨rounds + 1, by omega, .later on ends⟩
  | case2 t answer done =>
    rw [Trial.answer, done]
    exact ⟨1, by omega, .now done⟩

/-- Whatever the segments and the text, the loop ends. -/
theorem exists_ends (segments : List Segment) (text : List Char) :
    ∃ rounds ≤ (text.length + 2) * (segments.length + 1),
      (start segments text).Ends rounds (start segments text).answer := by
  have fits : (start segments text).Fits segments.length := ⟨Nat.le_refl _, nofun⟩
  obtain ⟨rounds, bound, ends⟩ := fits.ends
  refine ⟨rounds, bound.trans (Nat.le_of_eq ?_), ends⟩
  simp only [left, start]
  ring

end Trial

namespace CompiledPattern

theorem matches_append {piece : List Char} (percent : '%' ∉ piece) (underscore : '_' ∉ piece)
    {pattern text : List Char} : Matches (piece ++ pattern) text ↔
      ∃ rest, text = piece ++ rest ∧ Matches pattern rest := by
  induction piece generalizing text with
  | nil => simp
  | cons c piece ih =>
    simp only [List.mem_cons, not_or] at percent underscore
    rw [List.cons_append, matches_cons (Ne.symm percent.1)]
    simp [ih percent.2 underscore.2, Ne.symm underscore.1]

theorem occursIn_iff {piece text : List Char} :
    occursIn piece text = true ↔ ∃ start, start <:+ text ∧ piece <+: start := by
  induction text with
  | nil => simp [occursIn]
  | cons c text ih =>
    rw [occursIn, Bool.or_eq_true, ih, List.isPrefixOf_iff_prefix]
    constructor
    · rintro (here | ⟨start, inside, found⟩)
      · exact ⟨c :: text, List.suffix_rfl, here⟩
      · exact ⟨start, inside.trans (List.suffix_cons c text), found⟩
    · rintro ⟨start, inside, found⟩
      rcases List.suffix_cons_iff.mp inside with rfl | inside
      · exact .inl found
      · exact .inr ⟨start, inside, found⟩

theorem matches_run (text : List Char) : Matches ['%'] text :=
  matches_percent.mpr ⟨[], List.nil_suffix, rfl⟩

section

variable {piece text : List Char} (percent : '%' ∉ piece) (underscore : '_' ∉ piece)
include percent underscore

theorem exactly_iff : text = piece ↔ Matches piece text := by
  conv_rhs => rw [← List.append_nil piece, matches_append percent underscore]
  simp [Matches]

theorem beginning_iff : piece <+: text ↔ Matches (piece ++ ['%']) text := by
  rw [matches_append percent underscore]
  constructor
  · rintro ⟨rest, rfl⟩
    exact ⟨rest, rfl, matches_run rest⟩
  · rintro ⟨rest, rfl, -⟩
    exact List.prefix_append piece rest

theorem ending_iff : piece <:+ text ↔ Matches ('%' :: piece) text := by
  simp only [matches_percent, ← exactly_iff percent underscore, exists_eq_right]

theorem containing_iff :
    (∃ start, start <:+ text ∧ piece <+: start) ↔ Matches ('%' :: (piece ++ ['%'])) text := by
  simp only [matches_percent, ← beginning_iff percent underscore]

end

theorem acceptsChars_ofChars {pattern text : List Char} :
    (ofChars pattern).acceptsChars text = true ↔ Matches pattern text := by
  have loop : (segments (Segment.ofPattern pattern)).acceptsChars text = true ↔
      Matches pattern text := by
    rw [acceptsChars, Trial.answer_start, Segment.accepts_ofPattern]
  simp only [ofChars]
  split_ifs with underscore none last first both
  · exact loop
  · rw [acceptsChars, beq_iff_eq]
    exact exactly_iff (List.count_eq_zero.mp none) underscore
  · obtain ⟨one, last⟩ := last
    obtain ⟨piece, rfl⟩ := List.getLast?_eq_some_iff.mp last
    have percent : '%' ∉ piece := List.count_eq_zero.mp (by simpa using one)
    rw [List.dropLast_concat, acceptsChars, List.isPrefixOf_iff_prefix]
    exact beginning_iff percent (mt (List.mem_append_left _) underscore)
  · obtain ⟨one, first⟩ := first
    obtain ⟨piece, rfl⟩ := List.head?_eq_some_iff.mp first
    have percent : '%' ∉ piece := List.count_eq_zero.mp (by simpa using one)
    rw [List.tail_cons, acceptsChars, List.isSuffixOf_iff_suffix]
    exact ending_iff percent (mt (List.mem_cons_of_mem _) underscore)
  · obtain ⟨two, long, first, last⟩ := both
    obtain ⟨rest, rfl⟩ := List.head?_eq_some_iff.mp first
    obtain ⟨_ | ⟨_, piece⟩, split⟩ := List.getLast?_eq_some_iff.mp last
    · rw [split] at long
      exact absurd long (by decide)
    · obtain ⟨rfl, rfl : rest = piece ++ ['%']⟩ := List.cons.inj split
      have percent : '%' ∉ piece := List.count_eq_zero.mp (by simpa using two)
      rw [List.tail_cons, List.dropLast_concat, acceptsChars, occursIn_iff]
      exact containing_iff percent fun inside => underscore (by simp [inside])
  · exact loop

theorem ofPattern_accepts {pattern text : String} :
    (ofPattern pattern).accepts text = true ↔
      Matches (Text.lowerChars pattern.toList) (Text.lowerChars text.toList) :=
  acceptsChars_ofChars

end CompiledPattern
end SqlEngine
