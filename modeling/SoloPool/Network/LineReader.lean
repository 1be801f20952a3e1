import SoloPool.Lib.Bytes

/-!
# The line reader of a session

`read_line_bounded` and the loop of `session.rs` around it. The reader is the list of what is still to come: chunks as the
socket delivers them, the first of them perhaps read in part, and the points where the session drops a read that waits for
the next chunk. A read waits only when the buffered chunk is used up, and dropping one that was never polled does nothing.
-/

namespace SoloPool
open Lib

structure Chunk where
  bytes : Bytes
  some : bytes ≠ []
  deriving DecidableEq

inductive Arrival where
  | chunk (chunk : Chunk)
  | dropped
  deriving DecidableEq

def newline : UInt8 := 0x0a

def carriageReturn : UInt8 := 0x0d

/-- `BufReader::consume` of the front of a chunk. -/
def consume (available : Bytes) (n : Nat) (rest : List Arrival) : List Arrival :=
  if more : available.drop n ≠ [] then .chunk ⟨available.drop n, more⟩ :: rest else rest

def popCarriageReturn (buf : Bytes) : Bytes := if buf.getLast? = some carriageReturn then buf.dropLast else buf

/-- `Ok(Some(len))`, `Ok(None)`, the `InvalidData` error, or no result because the read was dropped. -/
inductive ReadResult where
  | line (len : Nat)
  | eof
  | invalidData
  | dropped
  deriving DecidableEq

/-- What a read leaves: its result, the reader and the accumulator. -/
structure LineRead where
  result : ReadResult
  reader : List Arrival
  buf : Bytes
  deriving DecidableEq

def readLineBounded (max : Nat) : List Arrival → Bytes → LineRead
  | [], buf => ⟨if buf = [] then .eof else .line buf.length, [], buf⟩
  | .dropped :: rest, buf => ⟨.dropped, rest, buf⟩
  | .chunk available :: rest, buf =>
    match available.bytes.findIdx? (· == newline) with
    | some pos =>
      let buf := popCarriageReturn (buf ++ available.bytes.take pos)
      ⟨if buf.length > max then .invalidData else .line buf.length, consume available.bytes (pos + 1) rest, buf⟩
    | none =>
      let buf := buf ++ available.bytes
      if buf.length > max then ⟨.invalidData, rest, buf⟩ else readLineBounded max rest buf

/-! ### The session's loop -/

/-- How much is left to read; a dropped read counts too. -/
def unread (reader : List Arrival) : Nat :=
  (reader.map fun
    | .chunk available => available.bytes.length + 1
    | .dropped => 1).sum

theorem unread_consume_lt (available : Chunk) (n : Nat) (rest : List Arrival) :
    unread (consume available.bytes (n + 1) rest) < unread (.chunk available :: rest) := by
  have positive : 0 < available.bytes.length := List.length_pos_iff.mpr available.some
  unfold consume
  split
  · simp only [unread, List.map_cons, List.sum_cons, List.length_drop]
    omega
  · simp only [unread, List.map_cons, List.sum_cons]
    omega

/-- A read leaves less to read, unless the stream had ended. -/
theorem readLineBounded_unread (max : Nat) (reader : List Arrival) (buf : Bytes) :
    unread (readLineBounded max reader buf).reader < unread reader ∨
      (reader = [] ∧ (readLineBounded max reader buf).reader = []) := by
  fun_induction readLineBounded max reader buf with
  | case1 buf => exact .inr ⟨rfl, rfl⟩
  | case2 rest buf => exact .inl (by simp [unread])
  | case3 available rest buf pos found buf' => exact .inl (unread_consume_lt available pos rest)
  | case4 available rest buf found buf' long => exact .inl (by simp [unread])
  | case5 available rest buf found buf' short ih =>
    refine .inl ?_
    have smaller : unread rest < unread (.chunk available :: rest) := by simp [unread]
    obtain less | ⟨rfl, ended⟩ := ih
    · exact less.trans smaller
    · rwa [ended]

inductive StreamEnd where
  | eof
  | invalidData
  deriving DecidableEq

/-- The lines a session takes off its reader and how the stream ends. The accumulator is cleared after a completed line
and kept when a read is dropped. -/
def readAll (max : Nat) (reader : List Arrival) (buf : Bytes) : List Bytes × StreamEnd :=
  match _returned : readLineBounded max reader buf with
  | ⟨.line _, reader', line⟩ =>
    let (lines, streamEnd) := readAll max reader' []
    (line :: lines, streamEnd)
  | ⟨.dropped, reader', buf'⟩ => readAll max reader' buf'
  | ⟨.eof, _, _⟩ => ([], .eof)
  | ⟨.invalidData, _, _⟩ => ([], .invalidData)
termination_by (unread reader, buf.length)
decreasing_by
  · obtain less | ⟨rfl, -⟩ := readLineBounded_unread max reader buf
    · rw [_returned] at less
      exact Prod.Lex.left _ _ less
    · obtain ⟨result, rfl, rfl⟩ := LineRead.mk.inj _returned
      refine Prod.Lex.right _ (List.length_pos_iff.mpr fun empty => ?_)
      rw [if_pos empty] at result
      cases result
  · obtain less | ⟨rfl, -⟩ := readLineBounded_unread max reader buf
    · rw [_returned] at less
      exact Prod.Lex.left _ _ less
    · obtain ⟨result, -, -⟩ := LineRead.mk.inj _returned
      split at result <;> cases result

end SoloPool
