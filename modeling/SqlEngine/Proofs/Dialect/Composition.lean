import SqlEngine.Proofs.Dialect.Verdicts

/-! Phrases of the grammar. They are put together from phrases, and keep what the verdicts on them
say of other lists of tokens. -/

namespace SqlEngine.Dialect
namespace Reader

variable {α β : Type}

/-- A phrase has a sample, and its verdict on every list of at most `n` tokens says what it says of
others. -/
structure Phrase (n : Nat) (m : Reader α) (K N : Lexeme → Prop) : Prop where
  judged : ∀ ts : List Token, Ended (ts.map (·.lexeme)) → ts.length ≤ n → Judged m K ts
  sample : Sample m K N

section

variable {n : Nat} {m : Reader α} {f : α → Reader β} {K K₁ N : Lexeme → Prop} {l : Lexeme}

namespace Phrase

theorem pure (le : ∀ l, K l → N l) (a : α) : Phrase n (Pure.pure a) K N :=
  ⟨fun _ ended _ => .pure ended a, .pure le a⟩

theorem value (a : α) : Phrase n (Pure.pure a) K Any :=
  .pure (fun _ _ => trivial) a

theorem answer (a : α) : Phrase n (Pure.pure a) K K :=
  .pure (fun _ known => known) a

theorem seq (first : Phrase n m K₁ N) (second : ∀ a, Phrase n (f a) K K₁)
    (le : ∀ l, K l → K₁ l) : Phrase n (m >>= f) K N := by
  refine ⟨fun ts ended length => ?_, first.sample.bind fun a => (second a).sample⟩
  have judged := first.judged ts ended length
  refine judged.bind (fun a left answered => ?_) (fun a => (second a).sample) fun _ _ _ _ _ => le
  obtain ⟨read, rfl, ended', -⟩ := judged.accepts a left answered
  rw [List.length_append] at length
  exact (second a).judged left ended' (by omega)

theorem andThen (first : Phrase n m Any N) (second : ∀ a, Phrase n (f a) K Any) :
    Phrase n (m >>= f) K N :=
  seq first second fun _ _ => trivial

theorem bind (first : Phrase n m K N) (second : ∀ a, Phrase n (f a) K K) :
    Phrase n (m >>= f) K N :=
  seq first second fun _ known => known

theorem mono {K' N' : Lexeme → Prop} (h : Phrase n m K N) (le : ∀ l, K' l → K l)
    (le' : ∀ l, N l → N' l) : Phrase n m K' N' :=
  ⟨fun ts ended length => (h.judged ts ended length).mono le, h.sample.mono le le'⟩

theorem any (h : Phrase n m K N) : Phrase n m K Any :=
  h.mono (fun _ known => known) fun _ _ => trivial

theorem within (h : Phrase n m Any N) : Phrase n m K N :=
  h.mono (fun _ _ => trivial) fun _ known => known

theorem expect (unfinished : l ≠ .finish) (known : N l) : Phrase n (Reader.expect l) Any N := by
  have step (us : List Token) (here : (current us).lexeme = l) :
      Reader.expect l us = (Pure.pure () : Reader Unit) (passed us) := if_pos here
  refine ⟨fun ts ended _ => ?_, .cons step known (.pure (fun _ _ => trivial) ())⟩
  by_cases here : (current ts).lexeme = l
  · exact .cons unfinished ended step here (.pure (Ended.passed ended (here ▸ unfinished)).2 ())
      (.pure (fun _ _ => trivial) ())
  · have timely : ¬IsLate (.lexeme l) := by simp [IsLate]
    refine .stopped timely ended (if_neg here) fun us a left same answered => ?_
    rw [Reader.expect, if_neg (same ▸ here)] at answered
    cases answered

theorem followed (first : Phrase n m K₁ N) (second : ∀ a, Phrase n (f a) K K₁)
    (refuses : ∀ a, Refuses (f a) K) : Phrase n (m >>= f) K N := by
  refine ⟨fun ts ended length => ?_, first.sample.bind fun a => (second a).sample⟩
  have judged := first.judged ts ended length
  have behind (a : α) (left : List Token) (answered : m ts = .ok (a, left)) :
      Judged (f a) K left := by
    obtain ⟨read, rfl, ended', -⟩ := judged.accepts a left answered
    rw [List.length_append] at length
    exact (second a).judged left ended' (by omega)
  refine judged.bind behind (fun a => (second a).sample) fun a left b answered idle => ?_
  exact absurd idle ((behind a left answered).not_idle (refuses a) b)

theorem closed {f : α → Reader β} (unfinished : l ≠ .finish) (first : Phrase n m K₁ N) (known : K₁ l)
    (second : ∀ a, Phrase n (f a) K Any) :
    Phrase n (m >>= fun a => Reader.expect l >>= fun _ => f a) K N := by
  have closing (a : α) : Phrase n (Reader.expect l >>= fun _ => f a) K K₁ :=
    andThen (expect unfinished known) fun _ => second a
  refine ⟨fun ts ended length => ?_, first.sample.bind fun a => (closing a).sample⟩
  have judged := first.judged ts ended length
  have left_ended {a : α} {left : List Token} (answered : m ts = .ok (a, left)) :
      Ended (left.map (·.lexeme)) ∧ left.length ≤ n := by
    obtain ⟨read, rfl, ended', -⟩ := judged.accepts a left answered
    rw [List.length_append] at length
    exact ⟨ended', by omega⟩
  refine judged.bind (fun a left answered => ?_) (fun a => (closing a).sample)
    fun a left b answered idle => ?_
  · exact (closing a).judged left (left_ended answered).1 (left_ended answered).2
  · obtain ⟨ended', length'⟩ := left_ended answered
    rw [bind_apply, Success.bind_eq_ok] at idle
    obtain ⟨⟨_, between⟩, passed, idle⟩ := idle
    by_cases here : (current left).lexeme = l
    · cases (if_pos here).symm.trans passed
      obtain ⟨split, ended''⟩ := Ended.passed ended' (here ▸ unfinished)
      have shorter := length_passed ended' (here ▸ unfinished) length'
      obtain ⟨read, same, -⟩ := ((second a).judged _ ended'' (by omega)).accepts b left idle
      have longer := congrArg List.length split
      have lengths := congrArg List.length same
      rw [List.length_cons] at longer
      rw [List.length_append] at lengths
      omega
    · cases (if_neg here).symm.trans passed

theorem shorter (h : Phrase n m K N) {k : Nat} (le : k ≤ n) : Phrase k m K N :=
  ⟨fun ts ended length => h.judged ts ended (Nat.le_trans length le), h.sample⟩

theorem zero (sample : Sample m K N) : Phrase 0 m K N := by
  refine ⟨fun ts ended length => ?_, sample⟩
  obtain ⟨t, rest, rfl⟩ := Ended.exists_cons ended
  cases length

theorem of_eq {m' : Reader α}
    (same : ∀ ts : List Token, Ended (ts.map (·.lexeme)) → m ts = m' ts) (h : Phrase n m' K N) :
    Phrase n m K N :=
  ⟨fun ts ended length => .of_eq same ended (h.judged ts ended length), .of_eq same h.sample⟩

end Phrase

theorem Sample.decline {f : Bool → Reader β} (sample : Sample (f false) K fun l' => l' ≠ l ∧ N l') :
    Sample (Reader.accept l >>= f) K N :=
  .guarded (fun _ other => accept_bind_of_ne other) sample

/-- What a reader may do once it has seen the first lexeme: pass it, report it, go on with another
phrase, or pass it and report what is behind it. The other phrase may read nothing only if it is the
one that is tried by `default`. -/
inductive Turn (n : Nat) (K : Lexeme → Prop) (default : Option (Reader β)) (l : Lexeme) :
    Reader β → Prop
  | passes {g : Reader β} (unfinished : l ≠ .finish) (phrase : Phrase (n - 1) g K Any) :
      Turn n K default l (Reader.pass >>= fun _ => g)
  | fails {e : Expectation} (timely : ¬IsLate e) : Turn n K default l (Reader.fail e)
  | stays {g : Reader β} (isDefault : default = some g)
      (judged : ∀ ts : List Token, Ended (ts.map (·.lexeme)) → ts.length ≤ n → Judged g K ts) :
      Turn n K default l g
  | enters {g : Reader β}
      (judged : ∀ ts : List Token, Ended (ts.map (·.lexeme)) → ts.length ≤ n → Judged g K ts)
      (refuses : Refuses g K) : Turn n K default l g
  | refuses {e : Expectation} (late : IsLate e) (unfinished : l ≠ .finish) :
      Turn n K default l (Reader.pass >>= fun _ => Reader.fail e)

theorem Sample.look {f : Lexeme → Reader β} {g : Reader β} (passes : f l = Reader.pass >>= fun _ => g)
    (known : N l) (sample : Sample g K Any) : Sample (Reader.look >>= f) K N := by
  refine .cons (fun us here => ?_) known sample
  rw [look_bind, here, passes]
  rfl

theorem Follows.reads_look {f : Lexeme → Reader β} {b : β} {rest : List Lexeme}
    (behind : ∀ l, K l → f l = Pure.pure b) (follows : Follows K rest) :
    Reads (Reader.look >>= f) [] b rest := by
  obtain ⟨l, isHead, known⟩ := follows.head
  refine .look isHead ?_
  rw [behind l known]
  exact .pure b

theorem Sample.enter {f : Lexeme → Reader β} {g : Reader β} {P : Lexeme → Prop}
    (enters : ∀ l, P l → f l = g) (sample : Sample g K fun l => P l ∧ N l) :
    Sample (Reader.look >>= f) K N := by
  refine .guarded (fun us here => ?_) sample
  rw [look_bind, enters _ here]

namespace Phrase

theorem look {f : Lexeme → Reader β} (default : Option (Reader β))
    (turns : ∀ l, Turn n K default l (f l)) (behind : ∀ g, default = some g → ∀ l, K l → f l = g)
    (sample : Sample (Reader.look >>= f) K N) : Phrase n (Reader.look >>= f) K N := by
  refine ⟨fun ts ended length => ?_, sample⟩
  have turn := turns (current ts).lexeme
  generalize is : f (current ts).lexeme = g at turn
  have step (us : List Token) (same : f (current us).lexeme = g) : (Reader.look >>= f) us = g us := by
    rw [look_bind, same]
  cases turn with
  | passes unfinished phrase =>
    refine .cons unfinished ended (fun us same => step us (same ▸ is)) rfl ?_ phrase.sample
    exact phrase.judged _ (Ended.passed ended unfinished).2
      (length_passed ended unfinished length)
  | fails timely =>
    refine .stopped timely ended (step ts is) fun us a left same answered => ?_
    rw [step us (same ▸ is)] at answered
    cases answered
  | stays isDefault judged =>
    exact .guarded (P := fun l => f l = g) (fun us same x => by rw [step us same])
      (fun e failed => (step ts is).symm.trans failed) is
      (fun _ _ l known => behind g isDefault l known) (judged ts ended length)
  | enters judged refuses =>
    have judged := judged ts ended length
    exact .guarded (P := fun l => f l = g) (fun us same x => by rw [step us same])
      (fun e failed => (step ts is).symm.trans failed) is
      (fun a idle => absurd idle (judged.not_idle refuses a)) judged
  | refuses late unfinished =>
    exact .late late unfinished ended (fun us same => step us (same ▸ is)) rfl

theorem optional {f : Lexeme → Reader β} {b : β} (turns : ∀ l, Turn n K (some (Pure.pure b)) l (f l))
    (behind : ∀ l, K l → f l = Pure.pure b) (le : ∀ l, K l → N l) :
    Phrase n (Reader.look >>= f) K N := by
  refine .look _ turns ?_ (.enter (P := K) behind (.pure (fun l known => ⟨known, le l known⟩) b))
  rintro g ⟨⟩
  exact behind

theorem otherwise {x y : Reader β} (turn : ∀ default, Turn n K default l x)
    (no : ∀ ts : List Token, Ended (ts.map (·.lexeme)) → ts.length ≤ n → Judged y K ts)
    (apart : K l → Refuses y K)
    (sample : Sample (Reader.look >>= fun l' => if l' = l then x else y) K N) :
    Phrase n (Reader.look >>= fun l' => if l' = l then x else y) K N := by
  by_cases known : K l
  · refine .look none (fun l' => ?_) (fun _ absurd => by cases absurd) sample
    split
    case isTrue here => exact here ▸ turn none
    case isFalse => exact .enters no (apart known)
  · refine .look (some y) (fun l' => ?_) ?_ sample
    · split
      case isTrue here => exact here ▸ turn _
      case isFalse => exact .stays rfl no
    · rintro g ⟨⟩ l' known'
      refine if_neg ?_
      rintro rfl
      exact known known'

theorem accept_eq_look (f : Bool → Reader β) : Reader.accept l >>= f =
    Reader.look >>= fun l' => if l' = l then Reader.pass >>= fun _ => f true else f false := by
  funext ts
  rw [look_bind]
  split
  case isTrue here => exact accept_bind_of_eq here
  case isFalse other => exact accept_bind_of_ne other

theorem branch {f : Bool → Reader β} (unfinished : l ≠ .finish) (yes : Phrase (n - 1) (f true) K Any)
    (no : ∀ ts : List Token, Ended (ts.map (·.lexeme)) → ts.length ≤ n → Judged (f false) K ts)
    (apart : K l → Refuses (f false) K) (sample : Sample (Reader.accept l >>= f) K N) :
    Phrase n (Reader.accept l >>= f) K N := by
  rw [accept_eq_look] at sample ⊢
  exact .otherwise (fun _ => .passes unfinished yes) no apart sample

theorem accept {f : Bool → Reader β} (unfinished : l ≠ .finish) (yes : Phrase (n - 1) (f true) K Any)
    (no : Phrase n (f false) K fun l' => l' ≠ l ∧ N l') (apart : K l → Refuses (f false) K) :
    Phrase n (Reader.accept l >>= f) K N :=
  branch unfinished yes no.judged apart (.decline no.sample)

theorem choice {x y : Reader β} (unfinished : l ≠ .finish) (yes : Phrase (n - 1) x K Any)
    (no : Phrase n y K fun l' => l' ≠ l ∧ N l') (apart : K l → Refuses y K) :
    Phrase n (Reader.accept l >>= fun found => if found = true then x else y) K N :=
  accept unfinished (by rwa [if_pos rfl]) (by rwa [if_neg Bool.false_ne_true])
    (by rwa [if_neg Bool.false_ne_true])

theorem refused {e : Expectation} {y : Reader β} (unfinished : l ≠ .finish) (late : IsLate e)
    (no : Phrase n y K fun l' => l' ≠ l ∧ N l') (apart : K l → Refuses y K) :
    Phrase n (Reader.accept l >>= fun found => if found = true then Reader.fail e else y) K N := by
  rw [accept_eq_look]
  exact .otherwise (fun _ => .refuses late unfinished) no.judged apart
    (.enter (P := (· ≠ l)) (fun _ other => if_neg other) no.sample)

end Phrase

end

def Leaves (m : Reader α) : Prop :=
  ∀ (ts : List Token) a left, Ended (ts.map (·.lexeme)) → m ts = .ok (a, left) →
    Ended (left.map (·.lexeme)) ∧ left.length ≤ ts.length

theorem Leaves.of_phrase {m : Reader α} {K : Lexeme → Prop} (phrase : ∀ n, Phrase n m K Any) :
    Leaves m := by
  intro ts a left ended answered
  obtain ⟨read, rfl, ended', -⟩ :=
    ((phrase ts.length).judged ts ended (Nat.le_refl _)).accepts a left answered
  exact ⟨ended', by simp⟩

def Shortens (step : α → Reader (Option α)) : Prop :=
  ∀ a (ts : List Token) b left, Ended (ts.map (·.lexeme)) → step a ts = .ok (some b, left) →
    Ended (left.map (·.lexeme)) ∧ left.length < ts.length

section

variable {step : α → Reader (Option α)} {n : Nat} {K N : Lexeme → Prop}

theorem Shortens.of_judged
    (judged : ∀ a, ∀ ts : List Token, Ended (ts.map (·.lexeme)) → Judged (step a) K ts)
    (stop : ∀ a rest, Follows K rest → Reads (step a) [] none rest) (finish : K .finish) :
    Shortens step := by
  intro a ts b left ended answered
  obtain ⟨read, rfl, ended', others⟩ := (judged a ts ended).accepts _ left answered
  refine ⟨ended', ?_⟩
  rw [List.length_append, Nat.lt_add_left_iff_pos, List.length_pos_iff]
  rintro rfl
  have ends : Follows K [.finish] := ⟨Ended.singleton, .finish, rfl, finish⟩
  obtain ⟨left', goes, -⟩ := others _ ends.ended (.inr ends.head) ends.ended.ne_nil
    [⟨.finish, 0, 0⟩] rfl
  obtain ⟨left'', stops, -⟩ := stop a _ ends ends.ended.ne_nil [⟨.finish, 0, 0⟩] rfl
  cases goes.symm.trans stops

theorem iterate_enough (shortens : Shortens step) (fuel : Nat) (a : α) (ts : List Token)
    (ended : Ended (ts.map (·.lexeme))) (length : ts.length ≤ fuel) :
    iterate step fuel a ts = repeatedly step a ts := by
  induction fuel using Nat.strongRecOn generalizing a ts with
  | _ fuel ih =>
    obtain ⟨t, rest, rfl⟩ := Ended.exists_cons ended
    obtain ⟨fuel, rfl⟩ := Nat.exists_eq_add_one.mpr (Nat.zero_lt_of_lt length)
    rw [repeatedly, List.length_cons, iterate, iterate, bind_apply, bind_apply]
    cases answered : step a (t :: rest) with
    | error failure => rfl
    | ok answer =>
      obtain ⟨_ | b, left⟩ := answer
      · rfl
      · obtain ⟨ended', shorter⟩ := shortens a _ b left ended answered
        rw [List.length_cons] at shorter length
        have here := ih fuel (by omega) b left ended' (by omega)
        have there := ih rest.length (by omega) b left ended' (by omega)
        exact here.trans there.symm

theorem Reads.repeatedly_none {a : α} {rest : List Lexeme} (stop : Reads (step a) [] none rest) :
    Reads (Reader.repeatedly step a) [] a rest := by
  intro some ts lexemes
  obtain ⟨left, stopped, same⟩ := stop some ts lexemes
  obtain ⟨t, more, rfl⟩ : ∃ t more, ts = t :: more := List.exists_cons_of_ne_nil fun empty =>
    some (by rw [← List.nil_append rest, ← lexemes, empty, List.map_nil])
  refine ⟨left, ?_, same⟩
  rw [Reader.repeatedly, List.length_cons, Reader.iterate, bind_apply, stopped]
  rfl

theorem repeatedly_eq (shortens : Shortens step) (a : α) (ts : List Token)
    (ended : Ended (ts.map (·.lexeme))) :
    repeatedly step a ts = (step a >>= fun next =>
      match next with
      | some b => repeatedly step b
      | none => pure a) ts := by
  obtain ⟨t, rest, rfl⟩ := Ended.exists_cons ended
  rw [repeatedly, List.length_cons, iterate, bind_apply, bind_apply]
  cases answered : step a (t :: rest) with
  | error failure => rfl
  | ok answer =>
    obtain ⟨_ | b, left⟩ := answer
    · rfl
    · obtain ⟨ended', shorter⟩ := shortens a _ b left ended answered
      exact iterate_enough shortens rest.length b left ended' (Nat.le_of_lt_succ shorter)

theorem Phrase.repeatedly (shortens : Shortens step)
    (each : ∀ a, ∀ ts : List Token, Ended (ts.map (·.lexeme)) → ts.length ≤ n → Judged (step a) K ts)
    (stop : ∀ a rest, Follows K rest → Reads (step a) [] none rest) (le : ∀ l, K l → N l) (a : α) :
    Phrase n (Reader.repeatedly step a) K N := by
  have sample (a : α) : Sample (Reader.repeatedly step a) K K :=
    ⟨[], a, fun rest follows => ⟨.repeatedly_none (stop a rest follows), follows⟩⟩
  have judged (k : Nat) (a : α) (ts : List Token) (ended : Ended (ts.map (·.lexeme)))
      (short : ts.length ≤ k) (length : ts.length ≤ n) : Judged (Reader.repeatedly step a) K ts := by
    induction k generalizing a ts with
    | zero =>
      obtain ⟨t, rest, rfl⟩ := Ended.exists_cons ended
      cases short
    | succ k ih =>
      refine .of_eq (repeatedly_eq shortens a) ended ((each a ts ended length).bind ?_ ?_ ?_)
      · rintro (_ | b) left answered
        · obtain ⟨read, rfl, ended', -⟩ := (each a ts ended length).accepts _ left answered
          exact .pure ended' a
        · obtain ⟨ended', shorter⟩ := shortens a ts b left ended answered
          exact ih b left ended' (by omega) (by omega)
      · rintro (_ | b)
        · exact .pure (fun _ known => known) a
        · exact sample b
      · exact fun _ _ _ _ _ _ known => known
  exact ⟨fun ts ended length => judged ts.length a ts ended (Nat.le_refl _) length,
    (sample a).mono (fun _ known => known) le⟩

end

section

variable {item : Reader α} {start : α → β} {next : β → α → β} {l : Lexeme} {n : Nat}
  {K N : Lexeme → Prop}

abbrev another (l : Lexeme) (item : Reader α) (next : β → α → β) (b : β) : Reader (Option β) := do
  if ← accept l then return some (next b (← item)) else return none

theorem another_shortens (unfinished : l ≠ .finish) (leaves : Leaves item) :
    Shortens (another l item next) := by
  intro b ts b' left ended answered
  by_cases here : (current ts).lexeme = l
  · obtain ⟨split, ended'⟩ := Ended.passed ended (here ▸ unfinished)
    have taken : another l item next b ts =
        (item >>= fun a => (Pure.pure (some (next b a)) : Reader _)) (passed ts) :=
      accept_bind_of_eq here
    rw [taken, bind_apply, Success.bind_eq_ok] at answered
    obtain ⟨⟨a, between⟩, read, same⟩ := answered
    cases same
    obtain ⟨ended'', length⟩ := leaves _ a between ended' read
    rw [split, List.length_cons]
    exact ⟨ended'', Nat.lt_succ_of_le length⟩
  · cases (accept_bind_of_ne here).symm.trans answered

theorem Phrase.separated (unfinished : l ≠ .finish) (leaves : Leaves item)
    (phrase : Phrase n item K N) (apart : ¬K l) :
    Phrase n (item >>= fun first => Reader.repeatedly (another l item next) (start first)) K N := by
  refine .bind phrase fun first => .repeatedly (another_shortens unfinished leaves) ?_ ?_
    (fun _ known => known) _
  · intro b
    refine (Phrase.choice (N := K) unfinished ?_ ?_ fun known => absurd known apart).judged
    · exact .bind ((phrase.shorter (Nat.sub_le n 1)).mono (fun _ known => known)
        fun _ _ => trivial) fun a => .pure (fun _ known => known) _
    · refine .pure (fun l' known => ⟨?_, known⟩) none
      rintro rfl
      exact apart known
  · intro b rest follows
    obtain ⟨l', isHead, known⟩ := follows.head
    refine .last (.decline fun same => ?_) (.pure none)
    cases same.symm.trans isHead
    exact apart known

theorem Phrase.commaSeparated (leaves : Leaves item) (phrase : Phrase n item K N)
    (apart : ¬K (.symbol .comma)) : Phrase n (Reader.commaSeparated item) K N :=
  .separated (by decide) leaves phrase apart

theorem Phrase.identifier (known : N (.identifier "x")) : Phrase n Reader.identifier Any N := by
  refine .look none (fun l => ?_) (fun _ absurd => by cases absurd) ?_
  · split
    · exact .passes (by simp) (.value _)
    · exact .fails (by simp [IsLate])
  · exact .look (l := .identifier "x") rfl known (.pure (fun _ _ => trivial) _)

end
end Reader
end SqlEngine.Dialect
