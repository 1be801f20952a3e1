import SoloPool.Network.LineReader

/-!
# Lines and segments

What a session reads against the lines of the byte stream. The two agree whatever the segments and the dropped reads,
except that the limit is checked at the end of a chunk before a carriage return is taken off, and that a last line
without newline keeps its carriage return.
-/

namespace SoloPool
open Lib

/-! ### The lines of a stream -/

def streamOf (reader : List Arrival) : Bytes :=
  reader.flatMap fun
    | .chunk available => available.bytes
    | .dropped => []

/-- The results for a stream cut at its newlines: one trailing carriage return is removed from each line, and the first
line still longer than `max` ends them. -/
def linesOf (max : Nat) : List Bytes → List Bytes × StreamEnd
  | [] => ([], .eof)
  | [last] =>
    if last = [] then ([], .eof)
    else if (popCarriageReturn last).length > max then ([], .invalidData)
    else ([popCarriageReturn last], .eof)
  | line :: next :: rest =>
    if (popCarriageReturn line).length > max then ([], .invalidData)
    else
      let (lines, streamEnd) := linesOf max (next :: rest)
      (popCarriageReturn line :: lines, streamEnd)

def linesOfStream (max : Nat) (stream : Bytes) : List Bytes × StreamEnd := linesOf max (stream.splitOn newline)

/-! ### Where the two differ -/

/-- The offsets at which chunks end, counted from `start`. -/
def chunkEnds (start : Nat) : List Arrival → List Nat
  | [] => []
  | .dropped :: rest => chunkEnds start rest
  | .chunk available :: rest => (start + available.bytes.length) :: chunkEnds (start + available.bytes.length) rest

/-- The lines up to here fit, and either a line of `max` bytes and its carriage return end a chunk just before the newline,
or the stream ends in a carriage return that no newline follows. -/
def Misread (max : Nat) (ends : List Nat) (start : Nat) : List Bytes → Prop
  | [] => False
  | [last] => last.getLast? = some carriageReturn ∧ last.length ≤ max + 1
  | line :: next :: rest =>
    (line.getLast? = some carriageReturn ∧ line.length = max + 1 ∧ start + line.length ∈ ends) ∨
      ((popCarriageReturn line).length ≤ max ∧ Misread max ends (start + line.length + 1) (next :: rest))

def MisreadStream (max : Nat) (ends : List Nat) (start : Nat) (stream : Bytes) : Prop :=
  Misread max ends start (stream.splitOn newline)

/-! ### The first line of a stream -/

theorem length_popCarriageReturn (line : Bytes) :
    (popCarriageReturn line).length = if line.getLast? = some carriageReturn then line.length - 1 else line.length := by
  unfold popCarriageReturn
  split
  · exact List.length_dropLast
  · rfl

section FirstLine

variable {max : Nat} {line : Bytes}

theorem linesOfStream_cons (whole : newline ∉ line) (rest : Bytes) :
    linesOfStream max (line ++ newline :: rest) =
      if (popCarriageReturn line).length > max then ([], .invalidData)
      else (popCarriageReturn line :: (linesOfStream max rest).1, (linesOfStream max rest).2) := by
  obtain ⟨next, more, pieces⟩ := List.exists_cons_of_ne_nil (List.splitOn_ne_nil newline rest)
  unfold linesOfStream
  rw [List.splitOn_append_cons_self_of_not_mem whole, pieces]
  rfl

theorem linesOfStream_last (whole : newline ∉ line) :
    linesOfStream max line =
      if line = [] then ([], .eof)
      else if (popCarriageReturn line).length > max then ([], .invalidData)
      else ([popCarriageReturn line], .eof) := by
  unfold linesOfStream
  rw [List.splitOn_eq_singleton whole]
  rfl

theorem misread_cons {ends : List Nat} {start : Nat} (whole : newline ∉ line) (rest : Bytes) :
    MisreadStream max ends start (line ++ newline :: rest) ↔
      (line.getLast? = some carriageReturn ∧ line.length = max + 1 ∧ start + line.length ∈ ends) ∨
        ((popCarriageReturn line).length ≤ max ∧ MisreadStream max ends (start + line.length + 1) rest) := by
  obtain ⟨next, more, pieces⟩ := List.exists_cons_of_ne_nil (List.splitOn_ne_nil newline rest)
  unfold MisreadStream
  rw [List.splitOn_append_cons_self_of_not_mem whole, pieces]
  rfl

theorem misread_last {ends : List Nat} {start : Nat} (whole : newline ∉ line) :
    MisreadStream max ends start line ↔ line.getLast? = some carriageReturn ∧ line.length ≤ max + 1 := by
  unfold MisreadStream
  rw [List.splitOn_eq_singleton whole]
  rfl

end FirstLine

/-- A chunk that ends within the first `max` bytes of a line makes no difference. -/
theorem misread_congr {max : Nat} {ends ends' : List Nat} {start : Nat} (pieces : List Bytes)
    (same : ∀ offset, start + max < offset → (offset ∈ ends ↔ offset ∈ ends')) :
    Misread max ends start pieces ↔ Misread max ends' start pieces := by
  fun_induction Misread max ends start pieces with
  | case1 => rfl
  | case2 start last => rfl
  | case3 start line next rest ih =>
    have later := ih fun offset beyond => same offset (by omega)
    rw [Misread, later]
    refine or_congr_left (and_congr_right fun _ => and_congr_right fun length => same _ ?_)
    omega

/-! ### The session's loop, arrival by arrival -/

/-- What the loop goes on to after a read. -/
def afterRead (max : Nat) : LineRead → List Bytes × StreamEnd
  | ⟨.line _, reader, line⟩ => (line :: (readAll max reader []).1, (readAll max reader []).2)
  | ⟨.dropped, reader, buf⟩ => readAll max reader buf
  | ⟨.eof, _, _⟩ => ([], .eof)
  | ⟨.invalidData, _, _⟩ => ([], .invalidData)

theorem readAll_eq (max : Nat) (reader : List Arrival) (buf : Bytes) :
    readAll max reader buf = afterRead max (readLineBounded max reader buf) := by
  rw [readAll]
  split <;> rename_i read <;> rw [read] <;> rfl

theorem readAll_nil (max : Nat) (buf : Bytes) :
    readAll max [] buf = if buf = [] then ([], .eof) else ([buf], .eof) := by
  have ended : readAll max [] [] = ([], .eof) := readAll_eq max [] []
  rw [readAll_eq, readLineBounded]
  by_cases empty : buf = []
  · rw [if_pos empty, if_pos empty]
    rfl
  · rw [if_neg empty, if_neg empty]
    simp only [afterRead, ended]

theorem readAll_dropped (max : Nat) (rest : List Arrival) (buf : Bytes) :
    readAll max (.dropped :: rest) buf = readAll max rest buf :=
  readAll_eq max (.dropped :: rest) buf

theorem readAll_newline {max : Nat} {available : Chunk} {rest : List Arrival} {buf : Bytes} {pos : Nat}
    (found : available.bytes.findIdx? (· == newline) = some pos) :
    readAll max (.chunk available :: rest) buf =
      if (popCarriageReturn (buf ++ available.bytes.take pos)).length > max then ([], .invalidData)
      else (popCarriageReturn (buf ++ available.bytes.take pos) :: (readAll max (consume available.bytes (pos + 1) rest) []).1,
        (readAll max (consume available.bytes (pos + 1) rest) []).2) := by
  rw [readAll_eq, readLineBounded, found]
  dsimp only
  split <;> rfl

theorem readAll_more {max : Nat} {available : Chunk} {rest : List Arrival} {buf : Bytes}
    (absent : available.bytes.findIdx? (· == newline) = none) :
    readAll max (.chunk available :: rest) buf =
      if (buf ++ available.bytes).length > max then ([], .invalidData) else readAll max rest (buf ++ available.bytes) := by
  rw [readAll_eq, readLineBounded, absent]
  dsimp only
  split
  · rfl
  · exact (readAll_eq max rest (buf ++ available.bytes)).symm

/-! ### Chunks -/

theorem newline_split {bytes : Bytes} {pos : Nat} (found : bytes.findIdx? (· == newline) = some pos) :
    newline ∉ bytes.take pos ∧ bytes = bytes.take pos ++ newline :: bytes.drop (pos + 1) := by
  obtain ⟨bound, here, before⟩ := List.findIdx?_eq_some_iff_getElem.mp found
  constructor
  · intro member
    obtain ⟨i, lt, same⟩ := List.mem_take_iff_getElem.mp member
    exact before i (by omega) (by rw [same]; exact beq_self_eq_true newline)
  · rw [← eq_of_beq here, List.getElem_cons_drop, List.take_append_drop]

theorem newline_absent {bytes : Bytes} (absent : bytes.findIdx? (· == newline) = none) : newline ∉ bytes := by
  intro member
  have none := List.findIdx?_eq_none_iff.mp absent newline member
  exact absurd none (by decide)

theorem streamOf_consume (available : Bytes) (n : Nat) (rest : List Arrival) :
    streamOf (consume available n rest) = available.drop n ++ streamOf rest := by
  unfold consume
  split
  · rfl
  · rename_i empty
    rw [not_not.mp empty, List.nil_append]

theorem chunkEnds_consume {start offset : Nat} (available : Bytes) (n : Nat) (rest : List Arrival) (beyond : start < offset) :
    offset ∈ chunkEnds start (consume available n rest) ↔
      offset ∈ (start + (available.drop n).length) :: chunkEnds (start + (available.drop n).length) rest := by
  unfold consume
  split
  · rfl
  · rename_i empty
    rw [not_not.mp empty, List.length_nil, Nat.add_zero, List.mem_cons]
    constructor
    · exact .inr
    · rintro (rfl | later)
      · exact absurd beyond (Nat.lt_irrefl _)
      · exact later

theorem le_of_mem_chunkEnds {start offset : Nat} {reader : List Arrival} (member : offset ∈ chunkEnds start reader) :
    start ≤ offset := by
  fun_induction chunkEnds start reader with
  | case1 => cases member
  | case2 start rest ih => exact ih member
  | case3 start available rest ih =>
    obtain rfl | later := List.mem_cons.mp member
    · exact Nat.le_add_right _ _
    · exact (Nat.le_add_right _ _).trans (ih later)

/-! ### Agreement -/

/-- Removing a carriage return brings a line of more than `max` bytes within the limit. -/
theorem popCarriageReturn_fits {max : Nat} {line : Bytes} (long : line.length > max) :
    (popCarriageReturn line).length ≤ max ↔ line.getLast? = some carriageReturn ∧ line.length = max + 1 := by
  rw [length_popCarriageReturn]
  split
  · rename_i returns
    simp only [returns, true_and]
    omega
  · rename_i plain
    simp only [plain, false_and, iff_false]
    omega

/-- The limit is passed at the end of a chunk: the line is too long, or its last byte is a carriage return. -/
theorem overlong_iff {max start : Nat} {front : Bytes} (long : front.length > max) (whole : newline ∉ front) (rest : Bytes)
    {ends : List Nat} (cut : start + front.length ∈ ends) :
    ([], StreamEnd.invalidData) = linesOfStream max (front ++ rest) ↔ ¬ MisreadStream max ends start (front ++ rest) := by
  by_cases more : newline ∈ rest
  · obtain ⟨upTo, after, rfl, free⟩ := List.eq_append_cons_of_mem more
    have line : newline ∉ front ++ upTo := fun member => (List.mem_append.mp member).elim whole free
    have longer : (front ++ upTo).length > max := by
      rw [List.length_append]
      omega
    rw [← List.append_assoc, linesOfStream_cons line, misread_cons line]
    by_cases fits : (popCarriageReturn (front ++ upTo)).length ≤ max
    · obtain ⟨returns, length⟩ := (popCarriageReturn_fits longer).mp fits
      have here : (front ++ upTo).length = front.length := by
        rw [List.length_append] at length ⊢
        omega
      rw [if_neg (Nat.not_lt.mpr fits)]
      refine iff_of_false nofun (not_not.mpr (.inl ⟨returns, length, ?_⟩))
      rwa [here]
    · rw [if_pos (Nat.not_le.mp fits)]
      refine iff_of_true rfl ?_
      rintro (⟨returns, length, -⟩ | ⟨small, -⟩)
      · exact fits ((popCarriageReturn_fits longer).mpr ⟨returns, length⟩)
      · exact fits small
  · have line : newline ∉ front ++ rest := fun member => (List.mem_append.mp member).elim whole more
    have longer : (front ++ rest).length > max := by
      rw [List.length_append]
      omega
    have some : front ++ rest ≠ [] := List.ne_nil_of_length_pos (by omega)
    rw [linesOfStream_last line, misread_last line, if_neg some]
    by_cases fits : (popCarriageReturn (front ++ rest)).length ≤ max
    · obtain ⟨returns, length⟩ := (popCarriageReturn_fits longer).mp fits
      rw [if_neg (Nat.not_lt.mpr fits)]
      exact iff_of_false nofun (not_not.mpr ⟨returns, length.le⟩)
    · rw [if_pos (Nat.not_le.mp fits)]
      refine iff_of_true rfl ?_
      rintro ⟨returns, length⟩
      exact fits ((popCarriageReturn_fits longer).mpr ⟨returns, by omega⟩)

theorem lastLine_iff {max start : Nat} {ends : List Nat} {buf : Bytes} (whole : newline ∉ buf) (short : buf.length ≤ max) :
    readAll max [] buf = linesOfStream max buf ↔ ¬ MisreadStream max ends start buf := by
  rw [readAll_nil, linesOfStream_last whole, misread_last whole]
  by_cases empty : buf = []
  · subst empty
    exact iff_of_true rfl nofun
  · have fits : ¬ (popCarriageReturn buf).length > max := by
      rw [length_popCarriageReturn]
      split <;> omega
    rw [if_neg empty, if_neg empty, if_neg fits]
    by_cases returns : buf.getLast? = some carriageReturn
    · refine iff_of_false (fun same => ?_) (not_not.mpr ⟨returns, by omega⟩)
      have kept : buf = popCarriageReturn buf := (List.cons.inj (Prod.mk.inj same).1).1
      have lengths := congrArg List.length kept
      rw [length_popCarriageReturn, if_pos returns] at lengths
      have positive := List.length_pos_iff.mpr empty
      omega
    · refine iff_of_true ?_ fun ends => returns ends.1
      rw [popCarriageReturn, if_neg returns]

/-- A chunk with a newline ends a line, and the rest of the stream is read from an empty buffer. -/
theorem readAll_newline_iff {max start pos : Nat} {available : Chunk} {rest : List Arrival} {buf : Bytes} (whole : newline ∉ buf)
    (found : available.bytes.findIdx? (· == newline) = some pos)
    (next : ∀ start, readAll max (consume available.bytes (pos + 1) rest) [] =
        linesOfStream max (streamOf (consume available.bytes (pos + 1) rest)) ↔
      ¬ MisreadStream max (chunkEnds start (consume available.bytes (pos + 1) rest)) start
        (streamOf (consume available.bytes (pos + 1) rest))) :
    readAll max (.chunk available :: rest) buf = linesOfStream max (buf ++ streamOf (.chunk available :: rest)) ↔
      ¬ MisreadStream max (chunkEnds (start + buf.length) (.chunk available :: rest)) start
        (buf ++ streamOf (.chunk available :: rest)) := by
  obtain ⟨free, split⟩ := newline_split found
  have line : newline ∉ buf ++ available.bytes.take pos := fun member => (List.mem_append.mp member).elim whole free
  have stream : buf ++ streamOf (.chunk available :: rest) =
      buf ++ available.bytes.take pos ++ newline :: streamOf (consume available.bytes (pos + 1) rest) := by
    rw [streamOf_consume, List.append_assoc, ← List.cons_append, ← List.append_assoc (available.bytes.take pos), ← split]
    rfl
  have bound : available.bytes.length = (available.bytes.take pos).length + 1 + (available.bytes.drop (pos + 1)).length := by
    have lengths := congrArg List.length split
    rw [List.length_append, List.length_cons] at lengths
    omega
  have width := @List.length_append _ buf (available.bytes.take pos)
  rw [readAll_newline found, stream, linesOfStream_cons line, misread_cons line]
  by_cases fits : (popCarriageReturn (buf ++ available.bytes.take pos)).length ≤ max
  · -- The chunk goes on past the newline, so it does not end in front of it.
    have inside : start + (buf ++ available.bytes.take pos).length ∉
        chunkEnds (start + buf.length) (.chunk available :: rest) := by
      intro member
      obtain same | later := List.mem_cons.mp member
      · omega
      · have beyond := le_of_mem_chunkEnds later
        omega
    rw [if_neg (Nat.not_lt.mpr fits), if_neg (Nat.not_lt.mpr fits)]
    have same : ∀ {read spec : List Bytes × StreamEnd} {first : Bytes},
        (first :: read.1, read.2) = (first :: spec.1, spec.2) ↔ read = spec := by simp [Prod.ext_iff]
    rw [same, next (start + (buf ++ available.bytes.take pos).length + 1), not_iff_not,
      or_iff_right fun ended => inside ended.2.2, and_iff_right fits]
    refine misread_congr _ fun offset beyond => ?_
    rw [chunkEnds_consume _ _ _ (Nat.lt_of_le_of_lt (Nat.le_add_right _ max) beyond), chunkEnds]
    rw [show start + (buf ++ available.bytes.take pos).length + 1 + (available.bytes.drop (pos + 1)).length =
      start + buf.length + available.bytes.length by omega]
  · rw [if_pos (Nat.not_le.mp fits), if_pos (Nat.not_le.mp fits)]
    refine iff_of_true rfl ?_
    rintro (⟨returns, length, -⟩ | ⟨small, -⟩)
    · rw [length_popCarriageReturn, if_pos returns] at fits
      omega
    · exact fits small

/-- From any state of the loop: the accumulator holds the start of a line within the limit. -/
theorem readAll_iff {max start : Nat} {reader : List Arrival} {buf : Bytes} (whole : newline ∉ buf)
    (short : buf.length ≤ max) :
    readAll max reader buf = linesOfStream max (buf ++ streamOf reader) ↔
      ¬ MisreadStream max (chunkEnds (start + buf.length) reader) start (buf ++ streamOf reader) := by
  induction left : unread reader using Nat.strong_induction_on generalizing reader buf start with
  | _ left ih =>
  subst left
  match reader with
  | [] =>
    rw [show streamOf [] = [] from rfl, List.append_nil]
    exact lastLine_iff whole short
  | .dropped :: rest =>
    rw [readAll_dropped]
    exact ih (unread rest) (by simp [unread]) whole short rfl
  | .chunk available :: rest =>
    cases found : available.bytes.findIdx? (· == newline) with
    | none =>
      have free : newline ∉ buf ++ available.bytes := fun member =>
        (List.mem_append.mp member).elim whole (newline_absent found)
      have stream : buf ++ streamOf (.chunk available :: rest) = buf ++ available.bytes ++ streamOf rest := by
        rw [List.append_assoc]
        rfl
      have offset : start + buf.length + available.bytes.length = start + (buf ++ available.bytes).length := by
        rw [List.length_append, Nat.add_assoc]
      rw [readAll_more found, stream, chunkEnds, offset]
      split
      · rename_i long
        exact overlong_iff long free _ List.mem_cons_self
      · rename_i fits
        rw [ih (unread rest) (by simp [unread]) free (Nat.not_lt.mp fits) rfl, not_iff_not]
        refine misread_congr _ fun offset beyond => ?_
        rw [List.mem_cons, or_iff_right]
        omega
    | some pos =>
      refine readAll_newline_iff whole found fun start => ?_
      have next := @ih (unread (consume available.bytes (pos + 1) rest)) (unread_consume_lt available pos rest) start
        (consume available.bytes (pos + 1) rest) [] List.not_mem_nil (Nat.zero_le max) rfl
      rwa [List.nil_append, List.length_nil, Nat.add_zero] at next

/-- A session reads exactly the lines of its stream, unless a line of the full length and its carriage return end a chunk
before the newline, or the stream ends in a carriage return. -/
theorem readAll_eq_linesOfStream_iff (max : Nat) (reader : List Arrival) :
    readAll max reader [] = linesOfStream max (streamOf reader) ↔
      ¬ MisreadStream max (chunkEnds 0 reader) 0 (streamOf reader) :=
  @readAll_iff max 0 reader [] List.not_mem_nil (Nat.zero_le max)

/-- `ab`, a carriage return and a newline, with a limit of two bytes: the newline comes in a segment of its own. -/
def cutBeforeNewline : List Arrival :=
  [.chunk ⟨[0x61, 0x62, 0x0d], by decide⟩, .dropped, .chunk ⟨[0x0a], by decide⟩]

def uncut : List Arrival := [.chunk ⟨[0x61, 0x62, 0x0d, 0x0a], by decide⟩]

theorem full_line_refused : readAll 2 cutBeforeNewline [] ≠ linesOfStream 2 (streamOf cutBeforeNewline) ∧
    readAll 2 cutBeforeNewline [] = ([], .invalidData) ∧ streamOf uncut = streamOf cutBeforeNewline ∧
    readAll 2 uncut [] = ([[0x61, 0x62]], .eof) := by
  have cut : readAll 2 cutBeforeNewline [] = ([], .invalidData) := by
    rw [readAll_eq]
    rfl
  have read : readLineBounded 2 uncut [] = ⟨.line 2, [], [0x61, 0x62]⟩ := by decide
  refine ⟨?_, cut, by decide, ?_⟩
  · rw [cut]
    decide
  · rw [readAll_eq, read, afterRead, readAll_nil, if_pos rfl]

end SoloPool
