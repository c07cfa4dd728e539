import SqlEngine.Dialect.Reader
import SqlEngine.Proofs.Success

/-! Readers that accept. What a reader accepts is told by the lexemes of its tokens, whatever their
places in the text are. -/

namespace SqlEngine.Dialect

def Starts (heads ls : List Lexeme) : Prop := ∃ l ∈ heads, ∃ more, ls = l :: more

namespace Starts

variable {heads ls rest : List Lexeme} {l : Lexeme}

theorem ne_nil (h : Starts heads ls) : ls ≠ [] := by
  obtain ⟨l, -, more, rfl⟩ := h
  nofun

theorem head?_ne (h : Starts heads ls) (apart : l ∉ heads) : ls.head? ≠ some l := by
  obtain ⟨l', listed, more, rfl⟩ := h
  rintro ⟨⟩
  exact apart listed

theorem cons (l : Lexeme) (more : List Lexeme) : Starts [l] (l :: more) :=
  ⟨l, List.mem_cons_self, more, rfl⟩

theorem mono {heads' : List Lexeme} (h : Starts heads ls) (sub : heads ⊆ heads') : Starts heads' ls := by
  obtain ⟨l, listed, more, rfl⟩ := h
  exact ⟨l, sub listed, more, rfl⟩

theorem before {heads' first : List Lexeme} (h : Starts heads rest)
    (begins : first = [] ∨ Starts heads' first) : Starts (heads' ++ heads) (first ++ rest) := by
  rcases begins with rfl | ⟨l, listed, more, rfl⟩
  · exact h.mono (List.subset_append_right _ _)
  · exact ⟨l, List.mem_append_left _ listed, _, rfl⟩

theorem before_append {heads' first : List Lexeme} (h : Starts heads (ls ++ rest))
    (begins : first = [] ∨ Starts heads' first) : Starts (heads' ++ heads) ((first ++ ls) ++ rest) := by
  rw [List.append_assoc]
  exact h.before begins

end Starts

namespace Reader

variable {α β γ : Type}

/-- From tokens that begin with the lexemes `ls`, the reader answers `a` and leaves the rest. -/
def Reads (m : Reader α) (ls : List Lexeme) (a : α) (rest : List Lexeme) : Prop :=
  rest ≠ [] → ∀ ts : List Token, ts.map (·.lexeme) = ls ++ rest →
    ∃ left, m ts = .ok (a, left) ∧ left.map (·.lexeme) = rest

section

variable {ts : List Token} {l l' : Lexeme} {ls : List Lexeme}

theorem current_lexeme (h : ts.map (·.lexeme) = l :: ls) : (current ts).lexeme = l := by
  obtain ⟨t, more, rfl, rfl, -⟩ := List.map_eq_cons_iff.mp h
  rfl

theorem next_lexeme (h : ts.map (·.lexeme) = l :: l' :: ls) : (next ts).lexeme = l' := by
  obtain ⟨t, more, rfl, -, tail⟩ := List.map_eq_cons_iff.mp h
  obtain ⟨t', more, rfl, rfl, -⟩ := List.map_eq_cons_iff.mp tail
  rfl

theorem passed_lexemes (h : ts.map (·.lexeme) = l :: ls) (more : ls ≠ []) :
    (passed ts).map (·.lexeme) = ls := by
  obtain ⟨t, tail, rfl, -, same⟩ := List.map_eq_cons_iff.mp h
  cases tail with
  | nil => exact absurd same.symm more
  | cons t' tail => exact same

end

namespace Reads

variable {m : Reader α} {f : α → Reader β} {a : α} {b : β} {l : Lexeme}
  {ls ls₁ ls₂ rest : List Lexeme}

theorem pure (a : α) : Reads (Pure.pure a) [] a rest :=
  fun _ ts same => ⟨ts, rfl, same⟩

theorem bind (first : Reads m ls₁ a (ls₂ ++ rest)) (second : Reads (f a) ls₂ b rest) :
    Reads (m >>= f) (ls₁ ++ ls₂) b rest := by
  intro more ts same
  rw [List.append_assoc] at same
  obtain ⟨between, answered, left⟩ := first (List.append_ne_nil_of_right_ne_nil _ more) ts same
  obtain ⟨left', answered', done⟩ := second more between left
  refine ⟨left', ?_, done⟩
  have split : (m >>= f) ts = m ts >>= fun answer => f answer.1 answer.2 := rfl
  rw [split, answered]
  exact answered'

theorem last (first : Reads m ls a rest) (second : Reads (f a) [] b rest) :
    Reads (m >>= f) ls b rest := by
  have both : Reads (m >>= f) (ls ++ []) b rest := bind first second
  rwa [List.append_nil] at both

theorem skip (first : Reads m [] a (ls ++ rest)) (second : Reads (f a) ls b rest) :
    Reads (m >>= f) ls b rest :=
  bind first second

theorem bind_cons (first : Reads m [l] a (ls ++ rest)) (second : Reads (f a) ls b rest) :
    Reads (m >>= f) (l :: ls) b rest :=
  bind first second

theorem look {f : Lexeme → Reader β} (head : (ls ++ rest).head? = some l)
    (h : Reads (f l) ls b rest) : Reads (Reader.look >>= f) ls b rest := by
  intro more ts same
  obtain ⟨tail, split⟩ := List.head?_eq_some_iff.mp head
  obtain ⟨left, answered, done⟩ := h more ts same
  refine ⟨left, ?_, done⟩
  rw [split] at same
  have step : (Reader.look >>= f) ts = f (current ts).lexeme ts := rfl
  rwa [step, current_lexeme same]

theorem lookNext {l' : Lexeme} {tail : List Lexeme} {f : Lexeme → Reader β}
    (head : ls ++ rest = l' :: l :: tail) (h : Reads (f l) ls b rest) :
    Reads (Reader.lookNext >>= f) ls b rest := by
  intro more ts same
  obtain ⟨left, answered, done⟩ := h more ts same
  refine ⟨left, ?_, done⟩
  rw [head] at same
  have step : (Reader.lookNext >>= f) ts = f (next ts).lexeme ts := rfl
  rwa [step, next_lexeme same]

theorem pass : Reads Reader.pass [l] () rest :=
  fun more ts same => ⟨passed ts, rfl, passed_lexemes same more⟩

theorem accept : Reads (Reader.accept l) [l] true rest :=
  fun more ts same => ⟨passed ts, if_pos (current_lexeme same), passed_lexemes same more⟩

theorem decline (head : rest.head? ≠ some l) : Reads (Reader.accept l) [] false rest := by
  intro more ts same
  obtain ⟨l', tail, rfl⟩ := List.exists_cons_of_ne_nil more
  refine ⟨ts, if_neg ?_, same⟩
  rw [current_lexeme same]
  rintro rfl
  exact head rfl

theorem decline_cons {l' : Lexeme} (apart : l' ≠ l) : Reads (Reader.accept l) [] false (l' :: rest) :=
  decline fun same => apart (Option.some.inj same)

theorem expect : Reads (Reader.expect l) [l] () rest :=
  fun more ts same => ⟨passed ts, if_pos (current_lexeme same), passed_lexemes same more⟩

theorem lift {e : Except Failure α} (h : e = .ok a) : Reads (liftM e) [] a rest := by
  intro _ ts same
  refine ⟨ts, ?_, same⟩
  rw [h]
  rfl

theorem identifier {name : String} : Reads Reader.identifier [.identifier name] name rest := by
  refine .look rfl ?_
  exact .bind_cons .pass (.pure name)

section

variable {step : β → Reader (Option β)} {lexemes : γ → List Lexeme} {next : β → γ → β} {P : γ → Prop}
  {parts : List γ}

theorem iterate (stop : ∀ b, Reads (step b) [] none rest)
    (go : ∀ b g (more : List γ), P g → (∀ x ∈ more, P x) →
      Reads (step b) (lexemes g) (some (next b g)) (more.flatMap lexemes ++ rest))
    (all : ∀ g ∈ parts, P g) {fuel : Nat} (enough : parts.length ≤ fuel) (b : β) :
    Reads (Reader.iterate step fuel b) (parts.flatMap lexemes) (parts.foldl next b) rest := by
  induction parts generalizing fuel b with
  | nil =>
    cases fuel with
    | zero => exact .pure b
    | succ fuel => exact .last (stop b) (.pure b)
  | cons g parts ih =>
    obtain ⟨fuel, rfl⟩ := Nat.exists_eq_add_one.mpr (Nat.zero_lt_of_lt enough)
    rw [List.forall_mem_cons] at all
    rw [List.flatMap_cons, List.foldl_cons]
    exact .bind (go b g parts all.1 all.2) (ih all.2 (Nat.le_of_succ_le_succ enough) (next b g))

theorem length_le_flatMap (nonempty : ∀ g ∈ parts, lexemes g ≠ []) :
    parts.length ≤ (parts.flatMap lexemes).length := by
  induction parts with
  | nil => exact Nat.zero_le _
  | cons g parts ih =>
    rw [List.forall_mem_cons] at nonempty
    have first := List.length_pos_iff.mpr nonempty.1
    have more := ih nonempty.2
    rw [List.flatMap_cons, List.length_append, List.length_cons]
    omega

theorem repeatedly (stop : ∀ b, Reads (step b) [] none rest)
    (go : ∀ b g (more : List γ), P g → (∀ x ∈ more, P x) →
      Reads (step b) (lexemes g) (some (next b g)) (more.flatMap lexemes ++ rest))
    (all : ∀ g ∈ parts, P g) (nonempty : ∀ g ∈ parts, lexemes g ≠ []) (b : β) :
    Reads (Reader.repeatedly step b) (parts.flatMap lexemes) (parts.foldl next b) rest := by
  intro more ts same
  have length := congrArg List.length same
  have parts_le := length_le_flatMap nonempty
  rw [List.length_map, List.length_append] at length
  exact iterate stop go all (by omega) b more ts same

end

theorem foldl_concat (items more : List α) :
    more.foldl (fun items item => items ++ [item]) items = items ++ more := by
  induction more generalizing items with
  | nil => exact (List.append_nil items).symm
  | cons item more ih => rw [List.foldl_cons, ih, List.append_assoc, List.singleton_append]

theorem separated {item : Reader α} {lexemes : α → List Lexeme} {start : α → β} {next : β → α → β}
    {first : α} {more : List α} {heads : List Lexeme} (follow : Starts heads rest) (apart : l ∉ heads)
    (each : ∀ a ∈ first :: more, ∀ after, Starts (l :: heads) after →
      Reads item (lexemes a) a after) :
    Reads (do
        let first ← item
        Reader.repeatedly (fun b => do
          if ← Reader.accept l then return some (next b (← item)) else return none) (start first))
      (lexemes first ++ more.flatMap fun a => l :: lexemes a) (more.foldl next (start first)) rest := by
  have after (items : List α) :
      Starts (l :: heads) ((items.flatMap fun a => l :: lexemes a) ++ rest) := by
    cases items with
    | nil => exact follow.mono (List.subset_cons_self _ _)
    | cons a items => exact ⟨_, List.mem_cons_self, _, rfl⟩
  rw [List.forall_mem_cons] at each
  have stop (b : β) : Reads (do
      if ← Reader.accept l then return some (next b (← item)) else return none) [] none rest :=
    .last (.decline (follow.head?_ne apart)) (.pure none)
  have go (b : β) (a : α) (others : List α) (listed : a ∈ more) (_ : ∀ x ∈ others, x ∈ more) :
      Reads (do if ← Reader.accept l then return some (next b (← item)) else return none)
        (l :: lexemes a) (some (next b a)) ((others.flatMap fun a => l :: lexemes a) ++ rest) :=
    .bind_cons .accept (.last (each.2 a listed _ (after others)) (.pure _))
  exact .bind (each.1 _ (after more))
    (.repeatedly stop go (fun a listed => listed) (fun _ _ => nofun) (start first))

theorem commaSeparated {item : Reader α} {lexemes : α → List Lexeme} {first : α} {more : List α}
    {heads : List Lexeme} (follow : Starts heads rest) (apart : .symbol .comma ∉ heads)
    (each : ∀ a ∈ first :: more, ∀ after, Starts (.symbol .comma :: heads) after →
      Reads item (lexemes a) a after) :
    Reads (Reader.commaSeparated item)
      (lexemes first ++ more.flatMap fun a => .symbol .comma :: lexemes a) (first :: more) rest := by
  have listed : Reads (Reader.commaSeparated item) _
      (more.foldl (fun items a => items ++ [a]) [first]) rest := separated follow apart each
  rwa [foldl_concat] at listed

end Reads
end Reader
end SqlEngine.Dialect
