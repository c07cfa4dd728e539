import SqlEngine.Text.Lowercase

/-! Patterns made ready for matching. A pattern without underscores whose percent signs stand only at
its ends is looked for as a piece of text. For all others there is a loop over the text and the
pattern, which goes back to the last percent sign when it is stuck. -/

namespace SqlEngine

inductive Segment where
  | anyRun
  | anyOne
  | only (c : Char)
deriving DecidableEq, Repr

namespace Segment

def ofChar (c : Char) : Segment :=
  if c = '%' then anyRun else if c = '_' then anyOne else only c

def before : Segment → List Segment → List Segment
  | anyRun, anyRun :: rest => anyRun :: rest
  | s, rest => s :: rest

def ofPattern : List Char → List Segment
  | [] => []
  | c :: rest => (ofChar c).before (ofPattern rest)

end Segment

/-- A round of the loop: the text and the segments that are left and, once a percent sign was passed,
the segments behind the last one with the text before which they were tried. -/
structure Trial where
  text : List Char
  segments : List Segment
  resume : Option (List Segment × List Char)
deriving DecidableEq, Repr

namespace Trial

def start (segments : List Segment) (text : List Char) : Trial := ⟨text, segments, none⟩

def retry (t : Trial) : Trial ⊕ Bool :=
  match t.resume with
  | some (behind, _ :: text) => .inl ⟨text, behind, some (behind, text)⟩
  | _ => .inr false

def step (t : Trial) : Trial ⊕ Bool :=
  match t.text, t.segments with
  | [], rest => .inr (rest.all (· == .anyRun))
  | text, .anyRun :: rest => .inl ⟨text, rest, some (rest, text)⟩
  | _ :: text, .anyOne :: rest => .inl ⟨text, rest, t.resume⟩
  | c :: text, .only d :: rest => if d = c then .inl ⟨text, rest, t.resume⟩ else t.retry
  | _, [] => t.retry

/-- What is compared lexicographically from round to round: the segments that may still be passed, the
text that the last percent sign may still take, and the text that is left. -/
def rank (t : Trial) : Nat × Nat × Nat :=
  (max ((t.resume.map (·.1.length)).getD 0) t.segments.length,
    (t.resume.map (·.2.length)).getD 0, t.text.length)

theorem rank_retry {t next : Trial} (h : t.retry = .inl next) :
    Prod.Lex (· < ·) (Prod.Lex (· < ·) (· < ·)) next.rank t.rank := by
  obtain ⟨text, segments, resume⟩ := t
  unfold retry at h
  split at h
  · next behind c after eq =>
    obtain rfl : resume = some (behind, c :: after) := eq
    obtain rfl := Sum.inl.inj h
    simp only [rank, Option.map_some, Option.getD_some, Nat.max_self, Prod.lex_def]
    simp only [List.length_cons]
    omega
  · cases h

theorem rank_step {t next : Trial} (h : t.step = .inl next) :
    Prod.Lex (· < ·) (Prod.Lex (· < ·) (· < ·)) next.rank t.rank := by
  obtain ⟨text, segments, resume⟩ := t
  simp only [step] at h
  split at h
  · cases h
  · obtain rfl := Sum.inl.inj h
    simp only [rank, Option.map_some, Option.getD_some, Nat.max_self, Prod.lex_def,
      List.length_cons]
    omega
  · obtain rfl := Sum.inl.inj h
    simp only [rank, Prod.lex_def, List.length_cons, true_and]
    omega
  · split at h
    · obtain rfl := Sum.inl.inj h
      simp only [rank, Prod.lex_def, List.length_cons, true_and]
      omega
    · exact rank_retry h
  · exact rank_retry h

def answer (t : Trial) : Bool :=
  match _h : t.step with
  | .inl next => next.answer
  | .inr answer => answer
termination_by t.rank
decreasing_by exact rank_step _h

end Trial

inductive CompiledPattern where
  | exactly (text : List Char)
  | beginning (piece : List Char)
  | ending (piece : List Char)
  | containing (piece : List Char)
  | segments (segments : List Segment)
deriving DecidableEq, Repr

namespace CompiledPattern

def ofChars (pattern : List Char) : CompiledPattern :=
  let percents := pattern.count '%'
  if '_' ∈ pattern then .segments (Segment.ofPattern pattern)
  else if percents = 0 then .exactly pattern
  else if percents = 1 ∧ pattern.getLast? = some '%' then .beginning pattern.dropLast
  else if percents = 1 ∧ pattern.head? = some '%' then .ending pattern.tail
  else if percents = 2 ∧ 2 < pattern.length ∧ pattern.head? = some '%' ∧
      pattern.getLast? = some '%' then
    .containing pattern.tail.dropLast
  else .segments (Segment.ofPattern pattern)

def ofPattern (pattern : String) : CompiledPattern := ofChars (Text.lowerChars pattern.toList)

def occursIn (piece : List Char) : (text : List Char) → Bool
  | [] => piece.isEmpty
  | c :: text => piece.isPrefixOf (c :: text) || occursIn piece text

def acceptsChars (p : CompiledPattern) (text : List Char) : Bool :=
  match p with
  | exactly whole => text == whole
  | beginning piece => piece.isPrefixOf text
  | ending piece => piece.isSuffixOf text
  | containing piece => occursIn piece text
  | segments ss => (Trial.start ss text).answer

def accepts (p : CompiledPattern) (text : String) : Bool :=
  p.acceptsChars (Text.lowerChars text.toList)

end CompiledPattern
end SqlEngine
