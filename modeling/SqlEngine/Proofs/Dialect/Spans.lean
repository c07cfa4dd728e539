import SqlEngine.Proofs.Dialect.Filling
import SqlEngine.Proofs.Dialect.Splitting

/-! The places of the tokens of a text. They come one behind the other, what stands between them
is a filling, and with it they make up the text. The text of a token on its own is that token
again. -/

namespace SqlEngine.Dialect

/-- What stands before each token, from an offset on. -/
def gapsFrom (source : String) : (start : Nat) → List Token → List String
  | _, [] => []
  | start, t :: rest => slice source start t.start :: gapsFrom source t.stop rest

/-- The texts of the tokens, each behind the gap before it. -/
def stitched (source : String) : (start : Nat) → List Token → String
  | _, [] => ""
  | start, t :: rest =>
    slice source start t.start ++ (t.written source ++ stitched source t.stop rest)

/-- How the tokens of a text lie in it. Only the mark of its end is empty, and only before this
one a comment may lack the end of its line. -/
structure Tiles (source : String) (ts : List Token) : Prop where
  finished : ∃ front, ts = front ++ [⟨.finish, source.utf8ByteSize, source.utf8ByteSize⟩] ∧
    ∀ t ∈ front, t.lexeme ≠ .finish ∧ t.start < t.stop
  ordered : ts.Pairwise fun t u => t.stop ≤ u.start
  bounded : ∀ t ∈ ts,
    String.Pos.Raw.IsValid source ⟨t.start⟩ ∧ String.Pos.Raw.IsValid source ⟨t.stop⟩
  filled : ∃ between last, gapsFrom source 0 ts = between ++ [last] ∧
    (∀ gap ∈ between, Filling gap.toList) ∧ Filling (last.toList ++ ['\n'])
  whole : stitched source 0 ts = source
  alone : ∀ t ∈ ts, t.lexeme ≠ .finish → tokens (t.written source) =
    .ok [⟨t.lexeme, 0, t.stop - t.start⟩, ⟨.finish, t.stop - t.start, t.stop - t.start⟩]

variable {source : String} {before cs : List Char} {n : Nat} {ts : List Token}

theorem utf8ByteSize_eq (s : String) : s.utf8ByteSize = bytes s.toList := by
  have size : (String.ofList s.toList).utf8ByteSize = String.utf8Len s.toList :=
    String.utf8ByteSize_ofList _
  rw [String.ofList_toList] at size
  rw [size]
  induction s.toList with
  | nil => rfl
  | cons c cs ih => rw [String.utf8Len, ih, bytes_cons, Nat.add_comm]

theorem isValid_bytes {after : List Char} (whole : source.toList = before ++ after) :
    String.Pos.Raw.IsValid source ⟨bytes before⟩ := by
  refine String.Pos.Raw.isValid_iff_exists_append.mpr ⟨.ofList before, .ofList after, ?_, ?_⟩
  · rw [← String.ofList_append, ← whole, String.ofList_toList]
  · rw [String.rawEndPos, utf8ByteSize_eq, String.toList_ofList]

theorem bytes_pos (c : Char) (cs : List Char) : 0 < bytes (c :: cs) := by
  have size := c.utf8Size_pos
  rw [bytes_cons]
  omega

theorem Cuts.finished (h : Cuts n cs ts) : ∃ front,
    ts = front ++ [⟨.finish, n + bytes cs, n + bytes cs⟩] ∧
      ∀ t ∈ front, t.lexeme ≠ .finish ∧ t.start < t.stop := by
  induction h with
  | finish passes => exact ⟨[], rfl, nofun⟩
  | @token n gap c more rest l ts passes reads _ ih =>
    obtain ⟨front, rfl, all⟩ := ih
    refine ⟨⟨l, n + bytes gap, n + bytes gap + bytes (c :: more)⟩ :: front, ?_, ?_⟩
    · simp only [List.cons_append, bytes_append, bytes_cons, Nat.add_assoc]
    · refine List.forall_mem_cons.mpr ⟨?_, all⟩
      exact ⟨reads.named, Nat.lt_add_of_pos_right (bytes_pos c more)⟩

theorem Cuts.start_le (h : Cuts n cs ts) : ∀ t ∈ ts, n ≤ t.start := by
  induction h with
  | finish passes => simp
  | token passes reads _ ih =>
    refine List.forall_mem_cons.mpr ⟨Nat.le_add_right _ _, fun t ht => ?_⟩
    have behind := ih t ht
    omega

theorem Cuts.ordered (h : Cuts n cs ts) : ts.Pairwise fun t u => t.stop ≤ u.start := by
  induction h with
  | finish passes => exact List.pairwise_singleton _ _
  | token passes reads others ih => exact .cons others.start_le ih

theorem Cuts.bounded (h : Cuts n cs ts) (whole : source.toList = before ++ cs)
    (place : n = bytes before) : ∀ t ∈ ts,
      String.Pos.Raw.IsValid source ⟨t.start⟩ ∧ String.Pos.Raw.IsValid source ⟨t.stop⟩ := by
  induction h generalizing before with
  | @finish n gap passes =>
    subst place
    have valid := @isValid_bytes source (before ++ gap) [] (by simp [whole])
    rw [bytes_append] at valid
    simpa using valid
  | @token n gap c more rest l ts passes reads _ ih =>
    subst place
    have start := @isValid_bytes source (before ++ gap) (c :: (more ++ rest)) (by simp [whole])
    have stop := @isValid_bytes source (before ++ gap ++ c :: more) rest (by simp [whole])
    have others := @ih (before ++ gap ++ c :: more) (by simp [whole]) (by simp only [bytes_append])
    simp only [bytes_append] at start stop others
    exact List.forall_mem_cons.mpr ⟨⟨start, stop⟩, others⟩

theorem Cuts.filled (h : Cuts n cs ts) (whole : source.toList = before ++ cs)
    (place : n = bytes before) : ∃ between last, gapsFrom source n ts = between ++ [last] ∧
      (∀ gap ∈ between, Filling gap.toList) ∧ Filling (last.toList ++ ['\n']) := by
  induction h generalizing before with
  | @finish n gap passes =>
    subst place
    refine ⟨[], String.ofList gap, ?_, nofun, ?_⟩
    · rw [gapsFrom, slice_eq (by rw [whole, List.append_nil])]
      rfl
    · rw [String.toList_ofList]
      exact passes.filling_end
  | @token n gap c more rest l ts passes reads _ ih =>
    subst place
    obtain ⟨between, last, gaps, filled, ended⟩ := @ih (before ++ (gap ++ c :: more))
      (by simp [whole]) (by simp only [bytes_append, Nat.add_assoc])
    refine ⟨String.ofList gap :: between, last, ?_, List.forall_mem_cons.mpr ⟨?_, filled⟩, ended⟩
    · rw [gapsFrom, slice_eq whole, gaps]
      rfl
    · rw [String.toList_ofList]
      exact passes.filling (List.cons_ne_nil _ _)

theorem Cuts.stitched (h : Cuts n cs ts) (whole : source.toList = before ++ cs)
    (place : n = bytes before) : stitched source n ts = String.ofList cs := by
  induction h generalizing before with
  | @finish n gap passes =>
    subst place
    have none : slice source (bytes before + bytes gap) (bytes before + bytes gap) = "" := by
      have empty := @slice_eq source (before ++ gap) [] [] (by simp [whole])
      simpa only [bytes_append, bytes_nil, Nat.add_zero] using empty
    rw [Dialect.stitched, Dialect.stitched, Token.written, none,
      slice_eq (by rw [whole, List.append_nil])]
    simp
  | @token n gap c more rest l ts passes reads _ ih =>
    subst place
    have written := @slice_eq source (before ++ gap) (c :: more) rest (by simp [whole])
    have others := @ih (before ++ (gap ++ c :: more)) (by simp [whole])
      (by simp only [bytes_append, Nat.add_assoc])
    rw [bytes_append] at written
    rw [Dialect.stitched, slice_eq whole, Token.written, written, others]
    simp only [← String.ofList_append, List.cons_append]

theorem Reads.alone {gap : List Char} {c : Char} {more rest : List Char} {l : Lexeme}
    (h : Reads c more rest l) (passes : Gap.blank.Passes gap (c :: (more ++ rest))) :
    tokens (String.ofList (c :: more)) =
      .ok [⟨l, 0, bytes (c :: more)⟩, ⟨.finish, bytes (c :: more), bytes (c :: more)⟩] := by
  have read := h.stays 0 [] rest rfl
  rw [List.append_nil, Nat.zero_add] at read
  rw [tokens, String.toList_ofList, tokensFrom_token _ (passes.stops rfl 0), read]
  rfl

theorem Cuts.alone (h : Cuts n cs ts) (whole : source.toList = before ++ cs)
    (place : n = bytes before) : ∀ t ∈ ts, t.lexeme ≠ .finish → tokens (t.written source) =
      .ok [⟨t.lexeme, 0, t.stop - t.start⟩, ⟨.finish, t.stop - t.start, t.stop - t.start⟩] := by
  induction h generalizing before with
  | finish passes => simp
  | @token n gap c more rest l ts passes reads _ ih =>
    subst place
    have written := @slice_eq source (before ++ gap) (c :: more) rest (by simp [whole])
    have others := @ih (before ++ (gap ++ c :: more)) (by simp [whole])
      (by simp only [bytes_append, Nat.add_assoc])
    refine List.forall_mem_cons.mpr ⟨fun _ => ?_, others⟩
    rw [bytes_append] at written
    rw [Token.written, written, Nat.add_sub_cancel_left]
    exact reads.alone passes

/-- The tokens of a text lie in it one behind the other, with fillings between them, and each of
them is what its own text is cut into. -/
theorem tokens_tile (h : tokens source = .ok ts) : Tiles source ts := by
  have cuts : Cuts 0 source.toList ts := cuts_of_tokensFrom h (Nat.lt_succ_self _)
  constructor
  case finished =>
    have finished := cuts.finished
    rwa [Nat.zero_add, ← utf8ByteSize_eq] at finished
  case ordered => exact cuts.ordered
  case bounded => exact cuts.bounded (List.nil_append _).symm rfl
  case filled => exact cuts.filled (List.nil_append _).symm rfl
  case whole => rw [cuts.stitched (List.nil_append _).symm rfl, String.ofList_toList]
  case alone => exact cuts.alone (List.nil_append _).symm rfl

/-- Characters of two and three bytes, doubled quotes, a number before a second point, a sign of two
characters and three kinds of gaps, of which the last one lacks the end of its line. -/
theorem tokens_tile_mixed :
    let source := "/* é */x<>'it''s €'\t1.5.2 -- é"
    let ts : List Token := [⟨.identifier "x", 8, 9⟩, ⟨.symbol .notEqual, 9, 11⟩,
      ⟨.string "it's €", 11, 22⟩, ⟨.number "1.5", 23, 26⟩, ⟨.symbol .dot, 26, 27⟩,
      ⟨.number "2", 27, 28⟩, ⟨.finish, 34, 34⟩]
    tokens source = .ok ts ∧ Tiles source ts := by
  intro source ts
  have cut : tokens source = .ok ts := by decide +kernel
  exact ⟨cut, tokens_tile cut⟩

end SqlEngine.Dialect
