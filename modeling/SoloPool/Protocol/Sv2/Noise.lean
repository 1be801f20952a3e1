import SoloPool.Lib.Bytes

/-!
# The encrypted frame reader

`protocol/sv2/noise.rs`: `NoiseReader::read`, and the reader task of `protocol/sv2/mod.rs` around it. The decoder is not part
of the source: its answers come as a list, one for each time it is asked. Of the stream only the number of bytes counts,
and the error it ends with.
-/

namespace SoloPool.Sv2
open Lib

inductive ErrorKind where
  | other
  | invalidData
  | unexpectedEof
  | os (code : Nat)
  deriving DecidableEq

structure IoError where
  kind : ErrorKind
  message : String
  deriving DecidableEq

def ioErr (message : String) : IoError := { kind := .other, message }

/-- The one failure that earns a ban. -/
def oversizeErr (atLeast maxFrame : UInt64) : IoError where
  kind := .invalidData
  message := s!"SV2 frame too large: at least {atLeast} > {maxFrame} bytes"

/-- A socket: how many bytes are still to come, how many were taken, and the error behind the last byte, which is never
`InvalidData`. -/
structure Stream where
  available : Nat
  taken : Nat
  ending : IoError
  ending_kind : ending.kind ≠ .invalidData

/-- `read_exact` of `n` bytes; one that fails has taken what there was. -/
def Stream.readExact (s : Stream) (n : Nat) : Option IoError × Stream :=
  if n ≤ s.available then (none, { s with available := s.available - n, taken := s.taken + n })
  else (some s.ending, { s with available := 0, taken := s.taken + s.available })

/-- What the decoder answers: a frame, the bytes it needs next, or an error that consumes the cipher state. -/
inductive Answer where
  | frame (msgType : UInt8) (payload : Bytes)
  | incomplete (missing : UInt64)
  | error (reason : String)
  deriving DecidableEq

def usizeMax : Nat := 2 ^ 64 - 1

def saturatingAdd (a b : UInt64) : UInt64 := UInt64.ofNat (min (a.toNat + b.toNat) usizeMax)

structure NoiseReader where
  reader : Stream
  /-- `state.is_some()`. -/
  usable : Bool
  maxFrame : UInt64
  frameRead : UInt64

namespace NoiseReader

abbrev ReadResult := Except IoError (UInt8 × Bytes)

def new (reader : Stream) (maxFrame : UInt64) : NoiseReader where
  reader := reader
  usable := true
  maxFrame := maxFrame
  frameRead := 0

def unusableErr : IoError := ioErr "noise transport unusable after a decode error"

/-- One pass of the loop of `read`, on a usable transport; the buffer to fill is as long as the answer says. -/
def pass (r : NoiseReader) : Answer → Option ReadResult × NoiseReader
  | .frame msgType payload => (some (.ok (msgType, payload)), { r with frameRead := 0 })
  | .incomplete missing =>
    let total := saturatingAdd r.frameRead missing
    if total > r.maxFrame then (some (.error (oversizeErr total r.maxFrame)), r)
    else
      match r.reader.readExact missing.toNat with
      | (none, reader) => (none, { r with reader, frameRead := total })
      | (some e, reader) => (some (.error e), { r with reader })
  | .error reason => (some (.error (ioErr ("noise decode error: " ++ reason))), { r with usable := false })

/-- The result of a read, the reader it leaves and the answers it has not asked for; no result while it waits for one. -/
def read (r : NoiseReader) (answers : List Answer) : Option ReadResult × NoiseReader × List Answer :=
  if r.usable then
    match answers with
    | [] => (none, r, [])
    | answer :: rest =>
      match r.pass answer with
      | (some result, r) => (some result, r, rest)
      | (none, r) => r.read rest
  else (some (.error unusableErr), r, answers)

/-- The reader task: frames go to the session until a read fails, and a frame that is too large earns a ban. -/
structure ReaderTask where
  inbound : List (UInt8 × Bytes)
  failure : Option IoError
  reader : NoiseReader

def ReaderTask.banned (task : ReaderTask) : Bool := task.failure.any fun e => decide (e.kind = .invalidData)

/-- The task on a usable transport, one pass of the read in progress for each answer. -/
def readerTask (r : NoiseReader) : List Answer → ReaderTask
  | [] => { inbound := [], failure := none, reader := r }
  | answer :: rest =>
    match r.pass answer with
    | (none, r) => r.readerTask rest
    | (some (.ok msg), r) => { r.readerTask rest with inbound := msg :: (r.readerTask rest).inbound }
    | (some (.error e), r) => { inbound := [], failure := some e, reader := r }

end NoiseReader

end SoloPool.Sv2
