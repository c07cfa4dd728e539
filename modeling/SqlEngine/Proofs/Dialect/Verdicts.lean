import SqlEngine.Proofs.Dialect.Recognition

/-! What a reader makes of a list of tokens, and what that says of all lists which begin like it. An
answer depends on the tokens that were read and on the one behind them. A failure says which token
is the first with which no list is accepted, and what is before it can be completed. -/

namespace SqlEngine.Dialect

def Ended (ls : List Lexeme) : Prop := ls.getLast? = some .finish

namespace Ended

variable {l : Lexeme} {ls rest : List Lexeme}

theorem ne_nil (h : Ended ls) : ls ≠ [] := by
  rintro rfl
  cases h

theorem singleton : Ended [.finish] := rfl

theorem append (h : Ended rest) (ls : List Lexeme) : Ended (ls ++ rest) := by
  rw [Ended, List.getLast?_append, h]
  rfl

theorem of_append (h : Ended (ls ++ rest)) (some : rest ≠ []) : Ended rest := by
  rwa [Ended, List.getLast?_append_of_ne_nil _ some] at h

theorem of_cons (h : Ended (l :: ls)) (unfinished : l ≠ .finish) : Ended ls := by
  have split : Ended ([l] ++ ls) := h
  refine split.of_append ?_
  rintro rfl
  exact unfinished (Option.some.inj h)

end Ended

structure Follows (K : Lexeme → Prop) (ls : List Lexeme) : Prop where
  ended : Ended ls
  head : ∃ l ∈ ls.head?, K l

theorem Follows.mono {K K' : Lexeme → Prop} {ls : List Lexeme} (h : Follows K ls)
    (le : ∀ l, K l → K' l) : Follows K' ls := by
  obtain ⟨l, isHead, known⟩ := h.head
  exact ⟨h.ended, l, isHead, le l known⟩

theorem Follows.cons {K : Lexeme → Prop} {l : Lexeme} {ls : List Lexeme} (known : K l)
    (ended : Ended ls) : Follows K (l :: ls) :=
  ⟨ended.append [l], l, rfl, known⟩

namespace Reader

variable {α β : Type}

theorem Reads.of_eq {m m' : Reader α} {ls rest : List Lexeme} {a : α} (ended : Ended rest)
    (same : ∀ ts : List Token, Ended (ts.map (·.lexeme)) → m ts = m' ts) (h : Reads m' ls a rest) :
    Reads m ls a rest := by
  intro some ts lexemes
  rw [same ts (lexemes ▸ ended.append ls)]
  exact h some ts lexemes

/-- The tokens `read` were read and `left` is left. The same lexemes are read again before every
list that begins as `left` does, and before those that may follow. -/
def Accepted (m : Reader α) (K : Lexeme → Prop) (ts : List Token) (a : α) (left : List Token) :
    Prop :=
  ∃ read, ts = read ++ left ∧ Ended (left.map (·.lexeme)) ∧
    ∀ rest, Ended rest → (rest.head? = (left.map (·.lexeme)).head? ∨ ∃ l ∈ rest.head?, K l) →
      Reads m (read.map (·.lexeme)) a rest

def Stuck (m : Reader α) (ls : List Lexeme) : Prop :=
  ∀ ts : List Token, Ended (ts.map (·.lexeme)) → ls <+: ts.map (·.lexeme) →
    ∀ a left, m ts ≠ .ok (a, left)

/-- The lexemes begin a list that is read in full, whatever follows. -/
def Completable (m : Reader α) (K : Lexeme → Prop) (ls : List Lexeme) : Prop :=
  ∃ more a, ∀ rest, Follows K rest → Reads m (ls ++ more) a rest

def IsLate (e : Expectation) : Prop := e = .likePattern ∨ e = .columnName

/-- How a failure names the token `t` between `read` and `rest`. It reports that token, or the one
behind it if it has been passed already, or the one before it if that is the word UNIQUE, which is
taken for the name of a column where no parenthesis follows. -/
inductive Blames (read : List Token) (t : Token) (rest : List Token) : Failure → Prop
  | itself {e : Expectation} (timely : ¬IsLate e) :
      Blames read t rest (.parse e t.lexeme t.start)
  | behind {e : Expectation} {u : Token} (late : IsLate e)
      (isNext : rest.head? = some u) : Blames read t rest (.parse e u.lexeme u.start)
  | before {front : List Token} {u : Token} (isLast : read = front ++ [u])
      (unique : u.lexeme = .keyword .UNIQUE) :
      Blames read t rest (.parse .identifier u.lexeme u.start)

theorem Blames.prepend {read rest : List Token} {t : Token} {failure : Failure}
    (h : Blames read t rest failure) (more : List Token) :
    Blames (more ++ read) t rest failure := by
  cases h with
  | itself timely => exact .itself timely
  | behind late isNext => exact .behind late isNext
  | before isLast unique => exact .before (by rw [isLast, List.append_assoc]) unique

/-- The first token with which no list is accepted. If anything was read before it, then that can be
completed. -/
def Rejected (m : Reader α) (K : Lexeme → Prop) (ts : List Token) (failure : Failure) : Prop :=
  ∃ read t rest, ts = read ++ t :: rest ∧ Blames read t rest failure ∧
    Stuck m ((read ++ [t]).map (·.lexeme)) ∧
    (read ≠ [] → Completable m K (read.map (·.lexeme)))

/-- What the verdict of a reader on one list says of others. The lexemes in `K` may follow. -/
structure Judged (m : Reader α) (K : Lexeme → Prop) (ts : List Token) : Prop where
  accepts : ∀ a left, m ts = .ok (a, left) → Accepted m K ts a left
  rejects : ∀ e found offset, m ts = .error (.parse e found offset) →
    Rejected m K ts (.parse e found offset)

def Sample (m : Reader α) (K N : Lexeme → Prop) : Prop :=
  ∃ ls a, ∀ rest, Follows K rest → Reads m ls a rest ∧ Follows N (ls ++ rest)

def Any : Lexeme → Prop := fun _ => True

section

variable {m : Reader α} {f : α → Reader β} {K K₁ N : Lexeme → Prop} {ts : List Token}

theorem bind_apply (m : Reader α) (f : α → Reader β) (ts : List Token) :
    (m >>= f) ts = m ts >>= fun answer => f answer.1 answer.2 := rfl

theorem Sample.bind (first : Sample m K₁ N) (second : ∀ a, Sample (f a) K K₁) :
    Sample (m >>= f) K N := by
  obtain ⟨ls, a, reads⟩ := first
  obtain ⟨ls', b, reads'⟩ := second a
  refine ⟨ls ++ ls', b, fun rest follows => ?_⟩
  obtain ⟨read', follows'⟩ := reads' rest follows
  obtain ⟨read, follows⟩ := reads (ls' ++ rest) follows'
  exact ⟨read.bind read', by rwa [List.append_assoc]⟩

theorem Stuck.bind {a : α} {read left : List Lexeme} (some : left ≠ [])
    (reads : ∀ rest, Ended rest → rest.head? = left.head? → Reads m read a rest)
    (stuck : Stuck (f a) left) : Stuck (m >>= f) (read ++ left) := by
  rintro ts ended ⟨more, lexemes⟩ b rest answered
  rw [List.append_assoc] at lexemes
  have whole : Ended (read ++ (left ++ more)) := lexemes ▸ ended
  have ended' : Ended (left ++ more) :=
    whole.of_append (List.append_ne_nil_of_left_ne_nil some more)
  obtain ⟨between, first, lexemes'⟩ :=
    reads (left ++ more) ended' (List.head?_append_of_ne_nil left some) ended'.ne_nil ts
      lexemes.symm
  rw [bind_apply, first] at answered
  exact stuck between (lexemes' ▸ ended') ⟨more, lexemes'.symm⟩ b rest answered

/-- One reader after the other. If the second one reads nothing, then what may follow it may follow
the first one. -/
theorem Judged.bind (first : Judged m K₁ ts)
    (second : ∀ a left, m ts = .ok (a, left) → Judged (f a) K left)
    (next : ∀ a, Sample (f a) K K₁)
    (idle : ∀ a left b, m ts = .ok (a, left) → f a left = .ok (b, left) → ∀ l, K l → K₁ l) :
    Judged (m >>= f) K ts := by
  constructor
  · intro b left answered
    rw [bind_apply, Success.bind_eq_ok] at answered
    obtain ⟨⟨a, between⟩, ha, hb⟩ := answered
    obtain ⟨read, rfl, ended, reads⟩ := first.accepts a between ha
    obtain ⟨read', rfl, ended', reads'⟩ := (second a between ha).accepts b left hb
    refine ⟨read ++ read', by rw [List.append_assoc], ended', fun rest endedRest head => ?_⟩
    rw [List.map_append]
    refine .bind (reads _ (endedRest.append _) ?_) (reads' rest endedRest head)
    cases read' with
    | nil =>
      refine head.imp_right ?_
      rintro ⟨l, isHead, known⟩
      exact ⟨l, isHead, idle a _ b ha hb l known⟩
    | cons t read' => exact .inl rfl
  · intro e found offset failed
    rw [bind_apply] at failed
    cases answered : m ts with
    | error failure =>
      obtain rfl : failure = .parse e found offset := by
        rw [answered] at failed
        exact Except.error.inj failed
      obtain ⟨read, t, rest, rfl, blames, stuck, complete⟩ := first.rejects _ _ _ answered
      refine ⟨read, t, rest, rfl, blames, ?_, fun some => ?_⟩
      · intro us ended begins b left answered
        rw [bind_apply, Success.bind_eq_ok] at answered
        obtain ⟨⟨a, between⟩, ha, -⟩ := answered
        exact stuck us ended begins a between ha
      · obtain ⟨more, a, reads⟩ := complete some
        obtain ⟨ls, b, reads'⟩ := next a
        refine ⟨more ++ ls, b, fun rest follows => ?_⟩
        obtain ⟨read', follows'⟩ := reads' rest follows
        rw [← List.append_assoc]
        exact (reads _ follows').bind read'
    | ok answer =>
      obtain ⟨a, between⟩ := answer
      rw [answered] at failed
      obtain ⟨read, rfl, ended, reads⟩ := first.accepts a between answered
      obtain ⟨read', t, rest, rfl, blames, stuck, complete⟩ :=
        (second a between answered).rejects e found offset failed
      refine ⟨read ++ read', t, rest, by rw [List.append_assoc], blames.prepend read, ?_, ?_⟩
      · rw [List.append_assoc, List.map_append]
        refine Stuck.bind (by simp) (fun rest' ended' head => reads rest' ended' (.inl ?_)) stuck
        rw [head]
        simp [List.head?_append]
      · intro _
        -- Either the second reader has begun, or any sample of it will do.
        by_cases begun : read' = []
        · obtain ⟨ls, b, reads'⟩ := next a
          refine ⟨ls, b, fun rest follows => ?_⟩
          obtain ⟨read', follows'⟩ := reads' rest follows
          rw [begun, List.append_nil]
          exact (reads _ follows'.ended (.inr follows'.head)).bind read'
        · obtain ⟨more, b, reads'⟩ := complete begun
          refine ⟨more, b, fun rest' follows => ?_⟩
          rw [List.map_append, List.append_assoc]
          refine .bind (reads _ ((follows.ended.append _)) (.inl ?_)) (reads' rest' follows)
          obtain ⟨u, read', rfl⟩ := List.exists_cons_of_ne_nil begun
          rfl

theorem Ended.exists_cons {ts : List Token} (ended : Ended (ts.map (·.lexeme))) :
    ∃ t rest, ts = t :: rest := by
  cases ts with
  | nil => cases ended
  | cons t rest => exact ⟨t, rest, rfl⟩

theorem Ended.passed {ts : List Token} (ended : Ended (ts.map (·.lexeme)))
    (unfinished : (current ts).lexeme ≠ .finish) :
    ts = current ts :: passed ts ∧ Ended ((passed ts).map (·.lexeme)) := by
  obtain ⟨t, rest, rfl⟩ := Ended.exists_cons ended
  have after : Ended (rest.map (·.lexeme)) := Ended.of_cons ended unfinished
  cases rest with
  | nil => cases after
  | cons t' rest => exact ⟨rfl, after⟩

theorem length_passed {ts : List Token} {n : Nat} (ended : Ended (ts.map (·.lexeme)))
    (unfinished : (current ts).lexeme ≠ .finish) (length : ts.length ≤ n) :
    (Reader.passed ts).length ≤ n - 1 := by
  rw [(Ended.passed ended unfinished).1, List.length_cons] at length
  omega

variable {M g : Reader α} {P : Lexeme → Prop}

theorem current_of_prefix {ts us : List Token} {ls : List Lexeme} (some : ls ≠ [])
    (begins : ls <+: ts.map (·.lexeme)) (begins' : ls <+: us.map (·.lexeme)) :
    (current us).lexeme = (current ts).lexeme := by
  obtain ⟨l, more, rfl⟩ := List.exists_cons_of_ne_nil some
  obtain ⟨rest, same⟩ := begins
  obtain ⟨rest', same'⟩ := begins'
  rw [current_lexeme same.symm, current_lexeme same'.symm]

/-- A reader that does what another one does where the first lexeme is in `P`. If the other one
reads nothing, then what may follow is in `P`. -/
theorem Judged.guarded (oks : ∀ us, P (current us).lexeme → ∀ x, M us = .ok x ↔ g us = .ok x)
    (errors : ∀ e, M ts = .error e → g ts = .error e) (here : P (current ts).lexeme)
    (idle : ∀ a, g ts = .ok (a, ts) → ∀ l, K l → P l) (judged : Judged g K ts) :
    Judged M K ts := by
  have reads {ls rest : List Lexeme} {a : α} (head : ∃ l ∈ (ls ++ rest).head?, P l)
      (h : Reads g ls a rest) : Reads M ls a rest := by
    intro some us lexemes
    obtain ⟨left, answered, lexemes'⟩ := h some us lexemes
    obtain ⟨l, isHead, known⟩ := head
    obtain ⟨tail, split⟩ := List.head?_eq_some_iff.mp isHead
    exact ⟨left, (oks us (current_lexeme (lexemes.trans split) ▸ known) _).mpr answered, lexemes'⟩
  constructor
  · intro a left answered
    have answered' := (oks ts here _).mp answered
    obtain ⟨read, rfl, ended, others⟩ := judged.accepts a left answered'
    refine ⟨read, rfl, ended, fun rest ended' head => reads ?_ (others rest ended' head)⟩
    cases read with
    | cons t read => exact ⟨_, rfl, here⟩
    | nil =>
      rcases head with head | ⟨l, isHead, known⟩
      · obtain ⟨t, left, rfl⟩ := Ended.exists_cons ended
        exact ⟨t.lexeme, head, here⟩
      · exact ⟨l, isHead, idle a answered' l known⟩
  · intro e found offset failed
    obtain ⟨read, t, rest, rfl, blames, stuck, complete⟩ :=
      judged.rejects e found offset (errors _ failed)
    refine ⟨read, t, rest, rfl, blames, fun us ended begins a left answered => ?_, fun some => ?_⟩
    · have head : (current us).lexeme = (current (read ++ t :: rest)).lexeme :=
        current_of_prefix (by simp) (by simp) begins
      exact stuck us ended begins a left ((oks us (head ▸ here) _).mp answered)
    · obtain ⟨more, a, others⟩ := complete some
      refine ⟨more, a, fun rest' follows => reads ?_ (others rest' follows)⟩
      obtain ⟨u, read, rfl⟩ := List.exists_cons_of_ne_nil some
      exact ⟨_, rfl, here⟩

theorem Judged.cons {l : Lexeme} (unfinished : l ≠ .finish) (ended : Ended (ts.map (·.lexeme)))
    (step : ∀ us, (current us).lexeme = l → M us = g (Reader.passed us))
    (here : (current ts).lexeme = l) (judged : Judged g K (Reader.passed ts))
    (sample : Sample g K Any) : Judged M K ts := by
  obtain ⟨split, endedRest⟩ := Ended.passed ended (here ▸ unfinished)
  have reads {ls rest : List Lexeme} {a : α} (h : Reads g ls a rest) :
      Reads M (l :: ls) a rest := by
    intro some us lexemes
    obtain ⟨left, answered, lexemes'⟩ := h some (Reader.passed us)
      (passed_lexemes lexemes (List.append_ne_nil_of_right_ne_nil _ some))
    exact ⟨left, (step us (current_lexeme lexemes)).trans answered, lexemes'⟩
  constructor
  · intro a left answered
    obtain ⟨read, passed, ended', others⟩ :=
      judged.accepts a left ((step ts here).symm.trans answered)
    refine ⟨current ts :: read, by rw [List.cons_append, ← passed, ← split], ended',
      fun rest ended'' head => ?_⟩
    rw [List.map_cons, here]
    exact reads (others rest ended'' head)
  · intro e found offset failed
    obtain ⟨read, t, rest, passed, blames, stuck, complete⟩ :=
      judged.rejects e found offset ((step ts here).symm.trans failed)
    refine ⟨current ts :: read, t, rest, by rw [List.cons_append, ← passed, ← split],
      blames.prepend [current ts], fun us ended' begins a left answered => ?_, fun _ => ?_⟩
    · have head : (current us).lexeme = l := by
        obtain ⟨more, lexemes⟩ := begins
        rw [current_lexeme lexemes.symm]
        exact here
      obtain ⟨split', endedRest'⟩ := Ended.passed ended' (head ▸ unfinished)
      refine stuck (Reader.passed us) endedRest' ?_ a left ((step us head).symm.trans answered)
      rw [split', List.cons_append, List.map_cons, List.map_cons, List.cons_prefix_cons] at begins
      exact begins.2
    · rw [List.map_cons, here]
      by_cases begun : read = []
      · obtain ⟨ls, a, others⟩ := sample
        exact ⟨ls, a, fun rest' follows => begun ▸ reads (others rest' follows).1⟩
      · obtain ⟨more, a, others⟩ := complete begun
        exact ⟨more, a, fun rest' follows => reads (others rest' follows)⟩

theorem Sample.guarded (oks : ∀ us, P (current us).lexeme → M us = g us)
    (sample : Sample g K fun l => P l ∧ N l) : Sample M K N := by
  obtain ⟨ls, a, others⟩ := sample
  refine ⟨ls, a, fun rest follows => ?_⟩
  obtain ⟨reads, starts⟩ := others rest follows
  refine ⟨fun some us lexemes => ?_, starts.mono fun l known => known.2⟩
  obtain ⟨l, isHead, known, -⟩ := starts.head
  obtain ⟨tail, split⟩ := List.head?_eq_some_iff.mp isHead
  rw [oks us (current_lexeme (lexemes.trans split) ▸ known)]
  exact reads some us lexemes

theorem Sample.cons {l : Lexeme} (step : ∀ us, (current us).lexeme = l → M us = g (Reader.passed us))
    (known : N l) (sample : Sample g K Any) : Sample M K N := by
  obtain ⟨ls, a, others⟩ := sample
  refine ⟨l :: ls, a, fun rest follows => ⟨fun some us lexemes => ?_,
    .cons known (follows.ended.append ls)⟩⟩
  rw [step us (current_lexeme lexemes)]
  exact (others rest follows).1 some _
    (passed_lexemes lexemes (List.append_ne_nil_of_right_ne_nil _ some))

theorem Judged.of_eq (same : ∀ us : List Token, Ended (us.map (·.lexeme)) → M us = g us)
    (ended : Ended (ts.map (·.lexeme))) (judged : Judged g K ts) : Judged M K ts := by
  constructor
  · intro a left answered
    obtain ⟨read, split, ended', others⟩ := judged.accepts a left (same ts ended ▸ answered)
    refine ⟨read, split, ended', fun rest ended'' head => ?_⟩
    exact .of_eq ended'' same (others rest ended'' head)
  · intro e found offset failed
    obtain ⟨read, t, rest, split, blames, stuck, complete⟩ :=
      judged.rejects e found offset (same ts ended ▸ failed)
    refine ⟨read, t, rest, split, blames, fun us ended' begins a left answered =>
      stuck us ended' begins a left (same us ended' ▸ answered), fun some => ?_⟩
    obtain ⟨more, a, others⟩ := complete some
    exact ⟨more, a, fun rest' follows => .of_eq follows.ended same (others rest' follows)⟩

theorem Sample.of_eq (same : ∀ us : List Token, Ended (us.map (·.lexeme)) → M us = g us)
    (sample : Sample g K N) : Sample M K N := by
  obtain ⟨ls, a, others⟩ := sample
  refine ⟨ls, a, fun rest follows => ?_⟩
  obtain ⟨reads, starts⟩ := others rest follows
  exact ⟨.of_eq follows.ended same reads, starts⟩

theorem Judged.mono {K' : Lexeme → Prop} (judged : Judged m K ts) (le : ∀ l, K' l → K l) :
    Judged m K' ts := by
  constructor
  · intro a left answered
    obtain ⟨read, split, ended, others⟩ := judged.accepts a left answered
    refine ⟨read, split, ended, fun rest ended' head => others rest ended' (head.imp_right ?_)⟩
    rintro ⟨l, isHead, known⟩
    exact ⟨l, isHead, le l known⟩
  · intro e found offset failed
    obtain ⟨read, t, rest, split, blames, stuck, complete⟩ := judged.rejects e found offset failed
    refine ⟨read, t, rest, split, blames, stuck, fun some => ?_⟩
    obtain ⟨more, a, others⟩ := complete some
    exact ⟨more, a, fun rest' follows => others rest' (follows.mono le)⟩

theorem Sample.mono {K' N' : Lexeme → Prop} (sample : Sample m K N) (le : ∀ l, K' l → K l)
    (le' : ∀ l, N l → N' l) : Sample m K' N' := by
  obtain ⟨ls, a, others⟩ := sample
  refine ⟨ls, a, fun rest follows => ?_⟩
  obtain ⟨reads, starts⟩ := others rest (follows.mono le)
  exact ⟨reads, starts.mono le'⟩

def Refuses (m : Reader α) (K : Lexeme → Prop) : Prop :=
  ∃ ts : List Token, Follows K (ts.map (·.lexeme)) ∧ ∀ x, m ts ≠ .ok x

theorem Judged.not_idle (judged : Judged m K ts) (refuses : Refuses m K) (a : α) :
    m ts ≠ .ok (a, ts) := by
  intro answered
  obtain ⟨us, follows, never⟩ := refuses
  obtain ⟨read, split, -, others⟩ := judged.accepts a ts answered
  obtain rfl : read = [] := by simpa using split
  obtain ⟨left, accepted, -⟩ :=
    others _ follows.ended (.inr follows.head) follows.ended.ne_nil us rfl
  exact never _ accepted

theorem Judged.pure (ended : Ended (ts.map (·.lexeme))) (a : α) :
    Judged (Pure.pure a) K ts := by
  constructor
  · intro b left answered
    cases answered
    exact ⟨[], rfl, ended, fun rest _ _ => Reads.pure a⟩
  · intro e found offset failed
    cases failed

theorem Sample.pure (le : ∀ l, K l → N l) (a : α) : Sample (Pure.pure a) K N :=
  ⟨[], a, fun _ follows => ⟨Reads.pure a, follows.mono le⟩⟩

theorem Judged.stopped {e : Expectation} (timely : ¬IsLate e) (ended : Ended (ts.map (·.lexeme)))
    (failed : M ts = .error (.parse e (current ts).lexeme (current ts).start))
    (never : ∀ us a left, (current us).lexeme = (current ts).lexeme → M us ≠ .ok (a, left)) :
    Judged M K ts := by
  obtain ⟨t, rest, rfl⟩ := Ended.exists_cons ended
  constructor
  · intro a left answered
    exact absurd answered (never _ a left rfl)
  · intro e' found offset failed'
    cases failed.symm.trans failed'
    refine ⟨[], t, rest, rfl, .itself timely, fun us _ begins a left => never us a left ?_,
      fun some => absurd rfl some⟩
    exact current_of_prefix (List.cons_ne_nil _ _) ⟨_, rfl⟩ begins

theorem Judged.late {l : Lexeme} {e : Expectation} (late : IsLate e) (unfinished : l ≠ .finish)
    (ended : Ended (ts.map (·.lexeme)))
    (step : ∀ us, (current us).lexeme = l → M us = Reader.fail e (Reader.passed us))
    (here : (current ts).lexeme = l) : Judged M K ts := by
  have never (us : List Token) (same : (current us).lexeme = l) (x : α × List Token) :
      M us ≠ .ok x := by
    intro answered
    cases (step us same).symm.trans answered
  obtain ⟨split, ended'⟩ := Ended.passed ended (here ▸ unfinished)
  obtain ⟨u, rest, isNext⟩ := Ended.exists_cons ended'
  constructor
  · intro a left answered
    exact absurd answered (never ts here _)
  · intro e' found offset failed
    have reported : M ts = .error (.parse e u.lexeme u.start) := by
      rw [step ts here, isNext]
      rfl
    cases reported.symm.trans failed
    refine ⟨[], current ts, Reader.passed ts, split, .behind late (by rw [isNext]; rfl),
      fun us _ begins a left => never us ?_ _, fun some => absurd rfl some⟩
    obtain ⟨more, lexemes⟩ := begins
    exact (current_lexeme lexemes.symm).trans here

end

section

variable {l : Lexeme} {f : Bool → Reader β} {ts : List Token}

theorem accept_bind_of_eq (here : (current ts).lexeme = l) :
    (accept l >>= f) ts = f true (passed ts) := by
  rw [bind_apply, accept, if_pos here]
  rfl

theorem accept_bind_of_ne (other : (current ts).lexeme ≠ l) : (accept l >>= f) ts = f false ts := by
  rw [bind_apply, accept, if_neg other]
  rfl

theorem look_bind (f : Lexeme → Reader β) (ts : List Token) :
    (look >>= f) ts = f (current ts).lexeme ts := rfl

end

end Reader
end SqlEngine.Dialect
