import Mathlib.Data.List.DropRight
import SoloPool.Protocol.Sv2.Noise

/-!
# The cap on encrypted frames

Between two frames the reader's count is the sum of what the decoder asked for since the last one, as long as the count does
not saturate. A cap below the largest `usize` is passed before that.
-/

namespace SoloPool.Sv2
open Lib

/-! ### Requests -/

namespace Answer

def isFrame : Answer → Bool
  | frame _ _ => true
  | _ => false

def request : Answer → Nat
  | incomplete missing => missing.toNat
  | _ => 0

end Answer

/-- The answers up to the last frame, and those for the frame being decoded. -/
def upToFrame (answers : List Answer) : List Answer := answers.rdropWhile fun a => !a.isFrame

def sinceFrame (answers : List Answer) : List Answer := answers.rtakeWhile fun a => !a.isFrame

/-- What was asked for toward the frame being decoded. -/
def pending (answers : List Answer) : Nat := ((sinceFrame answers).map Answer.request).sum

theorem upToFrame_append (answers : List Answer) : upToFrame answers ++ sinceFrame answers = answers :=
  List.rdropWhile_append_rtakeWhile

theorem pending_frame (answers : List Answer) {a : Answer} (frame : a.isFrame = true) : pending (answers ++ [a]) = 0 := by
  unfold pending sinceFrame
  rw [List.rtakeWhile_concat_neg _ _ _ (by simp [frame])]
  rfl

theorem pending_concat (answers : List Answer) {a : Answer} (other : a.isFrame = false) :
    pending (answers ++ [a]) = pending answers + a.request := by
  unfold pending sinceFrame
  rw [List.rtakeWhile_concat_pos _ _ _ (by simp [other]), List.map_append, List.sum_append]
  simp

theorem pending_upToFrame (answers : List Answer) : pending (upToFrame answers) = 0 := by
  have none : sinceFrame (upToFrame answers) = [] :=
    List.rtakeWhile_eq_nil_iff.mpr fun some => List.rdropWhile_last_not _ _ some
  unfold pending
  rw [none]
  rfl

theorem toNat_saturatingAdd (a b : UInt64) : (saturatingAdd a b).toNat = min (a.toNat + b.toNat) usizeMax := by
  have small : min (a.toNat + b.toNat) usizeMax < 2 ^ 64 := Nat.lt_of_le_of_lt (Nat.min_le_right _ _) (by decide)
  unfold saturatingAdd
  rw [UInt64.toNat_ofNat', Nat.mod_eq_of_lt small]

/-- Below the largest number the comparison is the one of the sum. -/
theorem saturatingAdd_gt {a b cap : UInt64} (below : cap.toNat < usizeMax) :
    saturatingAdd a b > cap ↔ cap.toNat < a.toNat + b.toNat := by
  rw [gt_iff_lt, UInt64.lt_iff_toNat_lt, toNat_saturatingAdd]
  omega

theorem saturatingAdd_within {a b cap : UInt64} (below : cap.toNat < usizeMax) (within : ¬ saturatingAdd a b > cap) :
    (saturatingAdd a b).toNat = a.toNat + b.toNat ∧ a.toNat + b.toNat ≤ cap.toNat := by
  rw [saturatingAdd_gt below] at within
  rw [toNat_saturatingAdd]
  omega

namespace NoiseReader

variable {r : NoiseReader}

/-! ### One pass -/

/-- What a pass can do. -/
theorem pass_cases (r : NoiseReader) (answer : Answer) :
    (∃ msgType payload, answer = .frame msgType payload ∧
      r.pass answer = (some (.ok (msgType, payload)), { r with frameRead := 0 })) ∨
    (∃ missing, answer = .incomplete missing ∧ saturatingAdd r.frameRead missing > r.maxFrame ∧
      r.pass answer = (some (.error (oversizeErr (saturatingAdd r.frameRead missing) r.maxFrame)), r)) ∨
    (∃ missing, answer = .incomplete missing ∧ ¬ saturatingAdd r.frameRead missing > r.maxFrame ∧
      missing.toNat ≤ r.reader.available ∧
      r.pass answer = (none, { r with
        reader := (r.reader.readExact missing.toNat).2, frameRead := saturatingAdd r.frameRead missing })) ∨
    (∃ missing, answer = .incomplete missing ∧ ¬ saturatingAdd r.frameRead missing > r.maxFrame ∧
      ¬ missing.toNat ≤ r.reader.available ∧
      r.pass answer = (some (.error r.reader.ending), { r with reader := (r.reader.readExact missing.toNat).2 })) ∨
    ∃ reason, answer = .error reason ∧
      r.pass answer = (some (.error (ioErr ("noise decode error: " ++ reason))), { r with usable := false }) := by
  cases answer with
  | frame msgType payload => exact .inl ⟨msgType, payload, rfl, rfl⟩
  | error reason => exact .inr (.inr (.inr (.inr ⟨reason, rfl, rfl⟩)))
  | incomplete missing =>
    by_cases large : saturatingAdd r.frameRead missing > r.maxFrame
    · exact .inr (.inl ⟨missing, rfl, large, if_pos large⟩)
    · by_cases enough : missing.toNat ≤ r.reader.available
      · refine .inr (.inr (.inl ⟨missing, rfl, large, enough, ?_⟩))
        rw [pass, if_neg large, Stream.readExact, if_pos enough]
      · refine .inr (.inr (.inr (.inl ⟨missing, rfl, large, enough, ?_⟩)))
        rw [pass, if_neg large, Stream.readExact, if_neg enough]

/-! ### The task -/

theorem readerTask_failed {done : List Answer} (failed : (r.readerTask done).failure ≠ none) (more : List Answer) :
    r.readerTask (done ++ more) = r.readerTask done := by
  induction done generalizing r with
  | nil => exact absurd rfl failed
  | cons answer done ih =>
    rw [readerTask] at failed
    rw [List.cons_append, readerTask, readerTask]
    generalize r.pass answer = passed at failed ⊢
    obtain ⟨_ | _ | msg, next⟩ := passed
    · exact ih failed
    · rfl
    · have same := @ih next failed
      dsimp only
      rw [same]

theorem readerTask_append {done : List Answer} (unfailed : (r.readerTask done).failure = none) (more : List Answer) :
    r.readerTask (done ++ more) =
      { (r.readerTask done).reader.readerTask more with
        inbound := (r.readerTask done).inbound ++ ((r.readerTask done).reader.readerTask more).inbound } := by
  induction done generalizing r with
  | nil => rfl
  | cons answer done ih =>
    rw [readerTask] at unfailed
    rw [List.cons_append, readerTask, readerTask]
    generalize r.pass answer = passed at unfailed ⊢
    obtain ⟨_ | _ | msg, next⟩ := passed
    · exact ih unfailed
    · cases unfailed
    · have whole := @ih next unfailed
      dsimp only
      rw [whole]
      rfl

def IsInvalidData (result : Option ReadResult) : Prop := ∃ e, result = some (.error e) ∧ e.kind = .invalidData

def failureOf : Option ReadResult → Option IoError
  | some (.error e) => some e
  | _ => none

theorem readerTask_singleton (r : NoiseReader) (answer : Answer) :
    (r.readerTask [answer]).failure = failureOf (r.pass answer).1 ∧ (r.readerTask [answer]).reader = (r.pass answer).2 := by
  rw [readerTask]
  obtain ⟨_ | _ | msg, next⟩ := r.pass answer
  · exact ⟨rfl, rfl⟩
  · exact ⟨rfl, rfl⟩
  · exact ⟨rfl, rfl⟩

/-- The last pass of a task that had not failed before. -/
theorem readerTask_concat {done : List Answer} (unfailed : (r.readerTask done).failure = none) (answer : Answer) :
    (r.readerTask (done ++ [answer])).failure = failureOf ((r.readerTask done).reader.pass answer).1 ∧
      (r.readerTask (done ++ [answer])).reader = ((r.readerTask done).reader.pass answer).2 := by
  rw [readerTask_append unfailed]
  exact readerTask_singleton _ answer

theorem banned_concat {done : List Answer} (unfailed : (r.readerTask done).failure = none) (answer : Answer) :
    (r.readerTask (done ++ [answer])).banned = true ↔ IsInvalidData ((r.readerTask done).reader.pass answer).1 := by
  rw [ReaderTask.banned, (readerTask_concat unfailed answer).1]
  unfold IsInvalidData
  obtain ⟨_ | _ | msg, next⟩ := (r.readerTask done).reader.pass answer
  · simp [failureOf]
  · simp [failureOf]
  · simp [failureOf]

/-- What the task makes of a read. -/
def ReaderTask.afterRead : Option ReadResult × NoiseReader × List Answer → ReaderTask
  | (none, r, _) => { inbound := [], failure := none, reader := r }
  | (some (.ok msg), r, rest) => { r.readerTask rest with inbound := msg :: (r.readerTask rest).inbound }
  | (some (.error e), r, _) => { inbound := [], failure := some e, reader := r }

theorem pass_usable {answer : Answer} (usable : r.usable = true) (waits : (r.pass answer).1 = none) :
    (r.pass answer).2.usable = true := by
  obtain ⟨msgType, payload, rfl, passed⟩ | ⟨missing, rfl, large, passed⟩ | ⟨missing, rfl, fits, enough, passed⟩ |
    ⟨missing, rfl, fits, short, passed⟩ | ⟨reason, rfl, passed⟩ := r.pass_cases answer
  · rw [passed] at waits
    cases waits
  · rw [passed] at waits
    cases waits
  · rw [passed]
    exact usable
  · rw [passed] at waits
    cases waits
  · rw [passed] at waits
    cases waits

/-- The passes of the task are those of one read after the other. -/
theorem readerTask_read (usable : r.usable = true) (answers : List Answer) :
    r.readerTask answers = ReaderTask.afterRead (r.read answers) := by
  induction answers generalizing r with
  | nil =>
    rw [read, if_pos usable]
    rfl
  | cons answer answers ih =>
    have still := @pass_usable r answer usable
    rw [readerTask, read, if_pos usable]
    generalize r.pass answer = passed at still ⊢
    obtain ⟨_ | _ | msg, next⟩ := passed
    · exact ih (still rfl)
    · rfl
    · rfl

theorem read_singleton (usable : r.usable = true) (answer : Answer) :
    (r.read [answer]).1 = (r.pass answer).1 ∧ (r.read [answer]).2.1 = (r.pass answer).2 := by
  have still := @pass_usable r answer usable
  rw [read, if_pos usable]
  generalize r.pass answer = passed at still ⊢
  obtain ⟨_ | result, next⟩ := passed
  · dsimp only
    rw [read, if_pos (still rfl)]
    exact ⟨rfl, rfl⟩
  · exact ⟨rfl, rfl⟩

/-! ### The count -/

/-- The reader after answers that did not fail it. -/
structure Counts (maxFrame : UInt64) (done : List Answer) (r : NoiseReader) : Prop where
  usable : r.usable = true
  cap : r.maxFrame = maxFrame
  count : r.frameRead.toNat = pending done
  within : pending done ≤ maxFrame.toNat

section Count

variable {maxFrame : UInt64} {done : List Answer}

theorem Counts.pass {answer : Answer} (below : maxFrame.toNat < usizeMax) (counts : Counts maxFrame done r)
    (unfailed : failureOf (r.pass answer).1 = none) : Counts maxFrame (done ++ [answer]) (r.pass answer).2 := by
  obtain ⟨msgType, payload, rfl, passed⟩ | ⟨missing, rfl, large, passed⟩ | ⟨missing, rfl, fits, enough, passed⟩ |
    ⟨missing, rfl, fits, short, passed⟩ | ⟨reason, rfl, passed⟩ := r.pass_cases answer
  · rw [passed]
    have restarts : pending (done ++ [.frame msgType payload]) = 0 := pending_frame done rfl
    exact ⟨counts.usable, counts.cap, restarts.symm, by rw [restarts]; exact Nat.zero_le _⟩
  · rw [passed] at unfailed
    cases unfailed
  · rw [passed]
    have asked : pending (done ++ [.incomplete missing]) = pending done + missing.toNat := pending_concat done rfl
    rw [counts.cap] at fits
    obtain ⟨sum, within⟩ := saturatingAdd_within below fits
    rw [counts.count] at sum within
    exact ⟨counts.usable, counts.cap, sum.trans asked.symm, asked.trans_le within⟩
  · rw [passed] at unfailed
    cases unfailed
  · rw [passed] at unfailed
    cases unfailed

theorem counts_run (stream : Stream) (below : maxFrame.toNat < usizeMax)
    (unfailed : ((new stream maxFrame).readerTask done).failure = none) :
    Counts maxFrame done ((new stream maxFrame).readerTask done).reader := by
  induction done using List.reverseRecOn with
  | nil => exact ⟨rfl, rfl, rfl, Nat.zero_le _⟩
  | append_singleton done answer ih =>
    by_cases before : ((new stream maxFrame).readerTask done).failure = none
    · obtain ⟨failure, reader⟩ := readerTask_concat before answer
      rw [failure] at unfailed
      rw [reader]
      exact (ih before).pass below unfailed
    · rw [readerTask_failed before] at unfailed
      exact absurd unfailed before

/-- A read takes what it was asked for at most. -/
theorem readExact_taken (s : Stream) (n : Nat) : (s.readExact n).2.taken ≤ s.taken + n := by
  unfold Stream.readExact
  split
  · exact le_rfl
  · dsimp only
    omega

/-- By induction on the answers: what is left of the cap bounds what is still read. -/
theorem readerTask_taken {answers : List Answer} (below : r.maxFrame.toNat < usizeMax)
    (noFrame : ∀ a ∈ answers, a.isFrame = false) (within : r.frameRead.toNat ≤ r.maxFrame.toNat) :
    (r.readerTask answers).reader.reader.taken + r.frameRead.toNat ≤ r.reader.taken + r.maxFrame.toNat := by
  induction answers generalizing r with
  | nil => exact Nat.add_le_add_left within _
  | cons answer answers ih =>
    have first := noFrame answer List.mem_cons_self
    rw [readerTask]
    obtain ⟨msgType, payload, rfl, passed⟩ | ⟨missing, rfl, large, passed⟩ | ⟨missing, rfl, fits, enough, passed⟩ |
      ⟨missing, rfl, fits, short, passed⟩ | ⟨reason, rfl, passed⟩ := r.pass_cases answer
    · cases first
    · rw [passed]
      exact Nat.add_le_add_left within _
    · rw [passed]
      obtain ⟨sum, within'⟩ := saturatingAdd_within below fits
      let next : NoiseReader :=
        { r with reader := (r.reader.readExact missing.toNat).2, frameRead := saturatingAdd r.frameRead missing }
      have rest := @ih next below (fun a among => noFrame a (List.mem_cons_of_mem _ among)) (sum.trans_le within')
      have step := readExact_taken r.reader missing.toNat
      change (next.readerTask answers).reader.reader.taken + r.frameRead.toNat ≤ _
      dsimp only [next] at rest ⊢
      omega
    · rw [passed]
      obtain ⟨sum, within'⟩ := saturatingAdd_within below fits
      have step := readExact_taken r.reader missing.toNat
      dsimp only
      omega
    · rw [passed]
      exact Nat.add_le_add_left within _

/-- Only a request over the cap gives `InvalidData`, and it reads nothing. -/
theorem Counts.invalidData_iff {answer : Answer} (below : maxFrame.toNat < usizeMax) (counts : Counts maxFrame done r) :
    (IsInvalidData (r.pass answer).1 ↔
      ∃ missing, answer = .incomplete missing ∧ maxFrame.toNat < pending done + missing.toNat) ∧
    (IsInvalidData (r.pass answer).1 → (r.pass answer).2 = r) := by
  have over_cap : ∀ missing, saturatingAdd r.frameRead missing > r.maxFrame ↔
      maxFrame.toNat < pending done + missing.toNat := by
    intro missing
    rw [counts.cap, saturatingAdd_gt below, counts.count]
  obtain ⟨msgType, payload, rfl, passed⟩ | ⟨missing, rfl, large, passed⟩ | ⟨missing, rfl, fits, enough, passed⟩ |
    ⟨missing, rfl, fits, short, passed⟩ | ⟨reason, rfl, passed⟩ := r.pass_cases answer
  · have calm : ¬ IsInvalidData (r.pass (.frame msgType payload)).1 := by
      rw [passed]
      rintro ⟨e, ⟨⟩, _⟩
    exact ⟨iff_of_false calm (by rintro ⟨_, ⟨⟩, _⟩), fun bad => absurd bad calm⟩
  · rw [passed]
    exact ⟨iff_of_true ⟨_, rfl, rfl⟩ ⟨missing, rfl, (over_cap missing).mp large⟩, fun _ => rfl⟩
  · have calm : ¬ IsInvalidData (r.pass (.incomplete missing)).1 := by
      rw [passed]
      rintro ⟨e, ⟨⟩, _⟩
    refine ⟨iff_of_false calm ?_, fun bad => absurd bad calm⟩
    rintro ⟨_, ⟨⟩, beyond⟩
    exact fits ((over_cap missing).mpr beyond)
  · have calm : ¬ IsInvalidData (r.pass (.incomplete missing)).1 := by
      rw [passed]
      rintro ⟨e, ⟨⟩, kind⟩
      exact r.reader.ending_kind kind
    refine ⟨iff_of_false calm ?_, fun bad => absurd bad calm⟩
    rintro ⟨_, ⟨⟩, beyond⟩
    exact fits ((over_cap missing).mpr beyond)
  · have calm : ¬ IsInvalidData (r.pass (.error reason)).1 := by
      rw [passed]
      rintro ⟨e, ⟨⟩, kind⟩
      cases kind
    exact ⟨iff_of_false calm (by rintro ⟨_, ⟨⟩, _⟩), fun bad => absurd bad calm⟩

end Count

/-- The bytes taken from the stream by a task, up to its last answer. -/
def taken (stream : Stream) (maxFrame : UInt64) (answers : List Answer) : Nat :=
  ((new stream maxFrame).readerTask answers).reader.reader.taken

theorem taken_le (stream : Stream) {maxFrame : UInt64} (below : maxFrame.toNat < usizeMax) (answers : List Answer) :
    taken stream maxFrame answers ≤ taken stream maxFrame (upToFrame answers) + maxFrame.toNat := by
  have noFrame : ∀ a ∈ sinceFrame answers, a.isFrame = false := by
    intro a among
    have kept := @List.mem_rtakeWhile_imp _ (fun a : Answer => !a.isFrame) answers a among
    rwa [Bool.not_eq_true'] at kept
  unfold taken
  nth_rewrite 1 [← upToFrame_append answers]
  by_cases unfailed : ((new stream maxFrame).readerTask (upToFrame answers)).failure = none
  · have counts := counts_run stream below unfailed
    have start : ((new stream maxFrame).readerTask (upToFrame answers)).reader.frameRead.toNat = 0 := by
      rw [counts.count, pending_upToFrame]
    have bound := @readerTask_taken ((new stream maxFrame).readerTask (upToFrame answers)).reader (sinceFrame answers)
      (by rw [counts.cap]; exact below) noFrame (by rw [start]; exact Nat.zero_le _)
    rw [start, counts.cap, Nat.add_zero] at bound
    rw [readerTask_append unfailed]
    exact bound
  · rw [readerTask_failed unfailed]
    exact Nat.le_add_right _ _

/-- Below the largest `usize`, a frame never takes more than the cap, and a read fails with `InvalidData` exactly on the first
request that passes it. With any cap, a frame restarts the count, and an error of the decoder ends all reading. -/
theorem frames_stay_within_cap (stream : Stream) (maxFrame : UInt64) :
    (maxFrame.toNat < usizeMax →
      (∀ answers, taken stream maxFrame answers ≤ taken stream maxFrame (upToFrame answers) + maxFrame.toNat) ∧
      ∀ done, ((new stream maxFrame).readerTask done).failure = none → ∀ answer,
        let r := ((new stream maxFrame).readerTask done).reader
        (IsInvalidData (r.read [answer]).1 ↔
          ∃ missing, answer = .incomplete missing ∧ maxFrame.toNat < pending done + missing.toNat) ∧
        (IsInvalidData (r.read [answer]).1 → (r.read [answer]).2.1 = r) ∧
        (((new stream maxFrame).readerTask (done ++ [answer])).banned = true ↔ IsInvalidData (r.read [answer]).1)) ∧
    ∀ done, ((new stream maxFrame).readerTask done).failure = none →
      let task := (new stream maxFrame).readerTask done
      (∀ msgType payload, pending (done ++ [.frame msgType payload]) = 0 ∧
        (new stream maxFrame).readerTask (done ++ [.frame msgType payload]) =
          { inbound := task.inbound ++ [(msgType, payload)], failure := none, reader := { task.reader with frameRead := 0 } }) ∧
      ∀ reason rest,
        let r := ((new stream maxFrame).readerTask (done ++ .error reason :: rest)).reader
        r.reader = task.reader.reader ∧ ∀ answers, r.read answers = (some (.error unusableErr), r, answers) := by
  constructor
  · intro below
    refine ⟨taken_le stream below, fun done unfailed answer => ?_⟩
    have counts := counts_run stream below unfailed
    obtain ⟨result, left⟩ := read_singleton counts.usable answer
    dsimp only
    rw [result, left, banned_concat unfailed]
    exact ⟨(counts.invalidData_iff below).1, (counts.invalidData_iff below).2, Iff.rfl⟩
  · intro done unfailed
    refine ⟨fun msgType payload => ⟨pending_frame done rfl, ?_⟩, fun reason rest => ?_⟩
    · rw [readerTask_append unfailed]
      rfl
    · rw [readerTask_append unfailed]
      refine ⟨rfl, fun answers => ?_⟩
      rw [read.eq_def]
      rfl

def longStream : Stream where
  available := 2 ^ 66
  taken := 0
  ending := { kind := .unexpectedEof, message := "early eof" }
  ending_kind := by decide

/-- Two requests with a frame before them: the second one passes the cap of 4096 bytes. -/
theorem frames_stay_within_cap_second_frame :
    let done := [.incomplete 4000, .frame 0x1f [], .incomplete 4000]
    let r := ((new longStream 4096).readerTask done).reader
    IsInvalidData (r.read [.incomplete 97]).1 ∧ (r.read [.incomplete 97]).2.1 = r ∧
      taken longStream 4096 done ≤ taken longStream 4096 (upToFrame done) + 4096 := by
  intro done r
  obtain ⟨bound, judged⟩ := (frames_stay_within_cap longStream 4096).1 (by decide)
  have refused := judged done (by decide) (.incomplete 97)
  have refuses : IsInvalidData (r.read [.incomplete 97]).1 := refused.1.mpr ⟨97, rfl, by decide⟩
  exact ⟨refuses, refused.2.1 refuses, bound done⟩

/-- The sum saturates at the largest `usize`: a cap of that size is never passed, and three requests of the longest buffer
there is take more bytes than the cap. -/
theorem largest_cap_never_refuses :
    let answers := List.replicate 3 (Answer.incomplete 0x7fffffffffffffff)
    ((new longStream 0xffffffffffffffff).readerTask answers).failure = none ∧ usizeMax < pending answers ∧
      taken longStream 0xffffffffffffffff (upToFrame answers) + usizeMax < taken longStream 0xffffffffffffffff answers := by
  decide +kernel

end NoiseReader

end SoloPool.Sv2
