import SoloPool.Bitcoin.Crates
import SoloPool.Mining.Submission

/-!
# The credit of a found block

Credit is given by the session's handler when an inline attempt succeeds and by the retrier when a later one does. Over any
answers of the node it is given at most once, no attempt follows an acceptance or a consensus rejection, and a replay
gives none. The retrier reads the clock before it sleeps, so an attempt can still go out after the deadline.
-/

namespace SoloPool
open Lib

/-! ### Answers -/

namespace Attempt

def accepted (a : Attempt) : Bool := decide (a.outcome = .ok ())

def rejected (a : Attempt) : Bool :=
  match a.outcome with
  | .err e => isPermanentReject e
  | _ => false

/-- An answer is an acceptance, a consensus rejection or another error; `try_submit` makes an error of a panic. -/
theorem outcome_cases (a : Attempt) :
    (a.outcome = .ok () ∧ a.accepted = true ∧ a.rejected = false) ∨
    (∃ e, a.outcome = .err e ∧ isPermanentReject e = true ∧ a.accepted = false ∧ a.rejected = true) ∨
    (∃ e, a.outcome = .err e ∧ isPermanentReject e = false ∧ a.accepted = false ∧ a.rejected = false) := by
  unfold accepted rejected
  cases answer : a.outcome with
  | ok => exact .inl ⟨rfl, rfl, rfl⟩
  | err e =>
    cases permanent : isPermanentReject e with
    | true => exact .inr (.inl ⟨e, rfl, permanent, rfl, permanent⟩)
    | false => exact .inr (.inr ⟨e, rfl, permanent, rfl, permanent⟩)
  | panic =>
    unfold outcome at answer
    cases called : SoloPool.submitBlock a.first a.refreshed <;> rw [called] at answer <;> cases answer

end Attempt

/-! ### Credit -/

def Effect.isBlockFound : Effect → Bool
  | .blockFound .. => true
  | _ => false

/-- How often the calls credit a block. -/
def credits (effects : List Effect) : Nat := effects.countP Effect.isBlockFound

/-- Some attempt before the first consensus rejection was accepted, and it was one of the next `inlineLeft` or its `time` lies
before the deadline. -/
def Creditable (time : Attempt → Instant) (inlineLeft : Nat) (deadline : Instant) (attempts : List Attempt) : Prop :=
  ∃ before a after, attempts = before ++ a :: after ∧ a.accepted = true ∧ (∀ b ∈ before, b.rejected = false) ∧
    (before.length < inlineLeft ∨ time a < deadline)

/-- No attempt follows an acceptance or a consensus rejection. -/
def StopsAtVerdict (made : List Attempt) : Prop :=
  ∀ before a after, made = before ++ a :: after → a.accepted = true ∨ a.rejected = true → after = []

section Lemmas

variable {time : Attempt → Instant} {inlineLeft : Nat} {deadline : Instant} {a : Attempt} {attempts : List Attempt}

theorem not_creditable_nil : ¬ Creditable time inlineLeft deadline [] := by
  rintro ⟨before, a, after, split, -⟩
  cases before <;> cases split

theorem creditable_cons :
    Creditable time inlineLeft deadline (a :: attempts) ↔
      (a.accepted = true ∧ (0 < inlineLeft ∨ time a < deadline)) ∨
        (a.rejected = false ∧ Creditable time (inlineLeft - 1) deadline attempts) := by
  constructor
  · rintro ⟨before, b, after, split, accepted, open', soon⟩
    cases before with
    | nil =>
      obtain ⟨rfl, rfl⟩ := List.cons.inj split
      exact .inl ⟨accepted, soon⟩
    | cons c before =>
      obtain ⟨rfl, rfl⟩ := List.cons.inj split
      refine .inr ⟨open' _ List.mem_cons_self, before, b, after, rfl, accepted,
        fun c member => open' c (List.mem_cons_of_mem _ member), soon.imp_left fun few => ?_⟩
      rw [List.length_cons] at few
      omega
  · rintro (⟨accepted, soon⟩ | ⟨open', before, b, after, rfl, accepted, others, soon⟩)
    · exact ⟨[], a, attempts, rfl, accepted, List.forall_mem_nil _, soon⟩
    · refine ⟨a :: before, b, after, rfl, accepted, fun c member => ?_, soon.imp_left fun few => ?_⟩
      · obtain rfl | member := List.mem_cons.mp member
        · exact open'
        · exact others c member
      · rw [List.length_cons]
        omega

theorem stopsAtVerdict_nil : StopsAtVerdict [] := by
  intro before a after split
  cases before <;> cases split

theorem stopsAtVerdict_single : StopsAtVerdict [a] := by
  intro before b after split _
  cases before with
  | nil => exact (List.cons.inj split).2.symm
  | cons c before => cases before <;> cases (List.cons.inj split).2

theorem StopsAtVerdict.cons (stops : StopsAtVerdict attempts) (accepted : a.accepted = false) (rejected : a.rejected = false) :
    StopsAtVerdict (a :: attempts) := by
  intro before b after split verdict
  cases before with
  | nil =>
    obtain ⟨rfl, -⟩ := List.cons.inj split
    rw [accepted, rejected] at verdict
    exact absurd verdict (by decide)
  | cons c before => exact stops before b after (List.cons.inj split).2 verdict

end Lemmas

/-! ### The retrier -/

/-- What holds of the course of some tasks over the attempts they were given. -/
structure Kept (attempts : List Attempt) (c : Course) : Prop where
  made : c.made <+: attempts
  stops : StopsAtVerdict c.made

theorem Kept.after {attempts : List Attempt} {c : Course} {a : Attempt} (kept : Kept attempts c) (accepted : a.accepted = false)
    (rejected : a.rejected = false) : Kept (a :: attempts) (c.after a) :=
  ⟨List.cons_prefix_cons.mpr ⟨rfl, kept.made⟩, kept.stops.cons accepted rejected⟩

theorem kept_single (a : Attempt) (attempts : List Attempt) (effects : List Effect) : Kept (a :: attempts) ⟨[a], effects⟩ :=
  ⟨List.cons_prefix_cons.mpr ⟨rfl, List.nil_prefix⟩, stopsAtVerdict_single⟩

theorem kept_nil (attempts : List Attempt) : Kept attempts ⟨[], []⟩ := ⟨List.nil_prefix, stopsAtVerdict_nil⟩

/-- The calls on a block accepted by the retrier. -/
def retryCalls (height : UInt64) (hashHex : String) (credit : Option String) : List Effect :=
  credit.toList.flatMap fun worker => [.metric .blockFound, .metric .blockSubmissionSuccess, .blockFound worker hashHex height]

section Retrier

variable {height : UInt64} {hashHex : String} {credit : Option String} {deadline : Instant}

/-- One turn of the retrier. -/
theorem spawnResubmitTask_cons (a : Attempt) (attempts : List Attempt) :
    (deadline ≤ a.turn ∧ spawnResubmitTask height hashHex credit deadline (a :: attempts) = ⟨[], []⟩) ∨
    (a.turn < deadline ∧
      ((a.accepted = true ∧
          spawnResubmitTask height hashHex credit deadline (a :: attempts) = ⟨[a], retryCalls height hashHex credit⟩) ∨
        (a.accepted = false ∧ a.rejected = true ∧
          spawnResubmitTask height hashHex credit deadline (a :: attempts) = ⟨[a], []⟩) ∨
        (a.accepted = false ∧ a.rejected = false ∧ spawnResubmitTask height hashHex credit deadline (a :: attempts) =
          (spawnResubmitTask height hashHex credit deadline attempts).after a))) := by
  by_cases soon : a.turn < deadline
  · refine .inr ⟨soon, ?_⟩
    obtain ⟨answer, accepted, -⟩ | ⟨e, answer, permanent, accepted, rejected⟩ |
      ⟨e, answer, passing, accepted, rejected⟩ := a.outcome_cases
    · exact .inl ⟨accepted, by simp only [spawnResubmitTask, if_pos soon, answer]; rfl⟩
    · exact .inr (.inl ⟨accepted, rejected, by simp [spawnResubmitTask, if_pos soon, answer, permanent]⟩)
    · exact .inr (.inr ⟨accepted, rejected, by simp [spawnResubmitTask, if_pos soon, answer, passing]⟩)
  · exact .inl ⟨not_lt.mp soon, by rw [spawnResubmitTask, if_neg soon]⟩

theorem spawnResubmitTask_kept (attempts : List Attempt) :
    Kept attempts (spawnResubmitTask height hashHex credit deadline attempts) := by
  induction attempts with
  | nil => exact kept_nil []
  | cons a attempts ih =>
    obtain ⟨-, expired⟩ | ⟨-, ⟨-, ends⟩ | ⟨-, -, ends⟩ | ⟨accepted, rejected, goes⟩⟩ :=
      @spawnResubmitTask_cons height hashHex credit deadline a attempts
    · rw [expired]
      exact kept_nil _
    · rw [ends]
      exact kept_single a attempts _
    · rw [ends]
      exact kept_single a attempts _
    · rw [goes]
      exact ih.after accepted rejected

theorem spawnResubmitTask_uncredited (attempts : List Attempt) :
    (spawnResubmitTask height hashHex none deadline attempts).effects = [] := by
  induction attempts with
  | nil => rfl
  | cons a attempts ih =>
    obtain ⟨-, expired⟩ | ⟨-, ⟨-, ends⟩ | ⟨-, -, ends⟩ | ⟨-, -, goes⟩⟩ :=
      @spawnResubmitTask_cons height hashHex none deadline a attempts
    · rw [expired]
    · rw [ends]
      rfl
    · rw [ends]
    · rw [goes]
      exact ih

/-- The clock never goes back from one turn to the next. -/
def TurnsInOrder (attempts : List Attempt) : Prop := attempts.Pairwise fun a b => a.turn ≤ b.turn

open scoped Classical in
theorem spawnResubmitTask_credits {worker : String} {attempts : List Attempt} (ordered : TurnsInOrder attempts) :
    credits (spawnResubmitTask height hashHex (some worker) deadline attempts).effects =
      if Creditable Attempt.turn 0 deadline attempts then 1 else 0 := by
  induction attempts with
  | nil =>
    rw [if_neg not_creditable_nil]
    rfl
  | cons a attempts ih =>
    obtain ⟨first, rest⟩ := List.pairwise_cons.mp ordered
    rw [creditable_cons]
    obtain ⟨late, expired⟩ | ⟨soon, ⟨accepted, ends⟩ | ⟨accepted, rejected, ends⟩ | ⟨accepted, rejected, goes⟩⟩ :=
      @spawnResubmitTask_cons height hashHex (some worker) deadline a attempts
    · rw [expired, if_neg]
      · rfl
      · -- No later turn begins before the deadline either.
        rintro (⟨-, soon⟩ | ⟨-, before, b, after, rfl, -, -, soon⟩)
        · exact (soon.resolve_left (Nat.lt_irrefl 0)).not_ge late
        · have order := first b (List.mem_append_right _ List.mem_cons_self)
          exact (soon.resolve_left (Nat.not_lt_zero _)).not_ge (late.trans order)
    · rw [ends, if_pos (.inl ⟨accepted, .inr soon⟩)]
      rfl
    · rw [ends, if_neg]
      · rfl
      · simp [accepted, rejected]
    · rw [goes]
      simp only [accepted, rejected, Bool.false_eq_true, false_and, false_or, true_and]
      exact ih rest

end Retrier

/-! ### The inline attempts -/

section Inline

variable {height : UInt64} {hashHex worker : String} {spawned : Instant} {attempt : Nat}

/-- One inline attempt. -/
theorem submitFoundBlock_cons (a : Attempt) (attempts : List Attempt) :
    (a.accepted = true ∧ submitFoundBlock height hashHex worker spawned attempt (a :: attempts) = (some (.ok ()), ⟨[a], []⟩)) ∨
    (∃ e, a.accepted = false ∧ a.rejected = true ∧
      submitFoundBlock height hashHex worker spawned attempt (a :: attempts) = (some (.error e), ⟨[a], []⟩)) ∨
    (∃ e, a.accepted = false ∧ a.rejected = false ∧
      submitFoundBlock height hashHex worker spawned attempt (a :: attempts) =
        if attempt < submitInlineAttempts then
          ((submitFoundBlock height hashHex worker spawned (attempt + 1) attempts).1,
            (submitFoundBlock height hashHex worker spawned (attempt + 1) attempts).2.after a)
        else (some (.error e),
          (spawnResubmitTask height hashHex (some worker) (spawned + submitRetryDeadline) attempts).after a)) := by
  obtain ⟨answer, accepted, -⟩ | ⟨e, answer, permanent, accepted, rejected⟩ |
    ⟨e, answer, passing, accepted, rejected⟩ := a.outcome_cases
  · exact .inl ⟨accepted, by simp only [submitFoundBlock, answer]⟩
  · exact .inr (.inl ⟨e, accepted, rejected, by simp [submitFoundBlock, answer, permanent]⟩)
  · exact .inr (.inr ⟨e, accepted, rejected, by simp [submitFoundBlock, answer, passing]⟩)

theorem submitFoundBlock_kept (attempts : List Attempt) :
    Kept attempts (submitFoundBlock height hashHex worker spawned attempt attempts).2 := by
  induction attempts generalizing attempt with
  | nil => exact kept_nil []
  | cons a attempts ih =>
    obtain ⟨-, ends⟩ | ⟨e, -, -, ends⟩ | ⟨e, accepted, rejected, goes⟩ :=
      @submitFoundBlock_cons height hashHex worker spawned attempt a attempts
    · rw [ends]
      exact kept_single a attempts []
    · rw [ends]
      exact kept_single a attempts []
    · rw [goes]
      split
      · exact ih.after accepted rejected
      · exact (spawnResubmitTask_kept attempts).after accepted rejected

/-- What the handler credits for the value that `submit_found_block` returned. -/
def handlerCredits (returned : Option (Except PoolError Unit)) : Nat :=
  match returned with
  | some (.ok ()) => 1
  | _ => 0

open scoped Classical in
theorem submitFoundBlock_credits {attempts : List Attempt} (ordered : TurnsInOrder attempts) (few : attempt ≤ submitInlineAttempts) :
    handlerCredits (submitFoundBlock height hashHex worker spawned attempt attempts).1 +
        credits (submitFoundBlock height hashHex worker spawned attempt attempts).2.effects =
      if Creditable Attempt.turn (submitInlineAttempts + 1 - attempt) (spawned + submitRetryDeadline) attempts then 1 else 0 := by
  induction attempts generalizing attempt with
  | nil =>
    rw [if_neg not_creditable_nil]
    rfl
  | cons a attempts ih =>
    have rest := (List.pairwise_cons.mp ordered).2
    rw [creditable_cons]
    obtain ⟨accepted, ends⟩ | ⟨e, accepted, rejected, ends⟩ | ⟨e, accepted, rejected, goes⟩ :=
      @submitFoundBlock_cons height hashHex worker spawned attempt a attempts
    · rw [ends, if_pos (.inl ⟨accepted, .inl (by omega)⟩)]
      rfl
    · rw [ends, if_neg]
      · rfl
      · simp [accepted, rejected]
    · rw [goes]
      simp only [accepted, rejected, Bool.false_eq_true, false_and, false_or, true_and]
      split
      · rename_i more
        have next := ih rest (Nat.succ_le_of_lt more)
        rwa [show submitInlineAttempts + 1 - (attempt + 1) = submitInlineAttempts + 1 - attempt - 1 by omega] at next
      · rw [show submitInlineAttempts + 1 - attempt - 1 = 0 by omega, ← spawnResubmitTask_credits rest]
        exact Nat.zero_add _

end Inline

/-! ### The whole submission -/

theorem settle_credits {σ : Type} (env : Env) (worker : String) (height : UInt64) (m : Miner σ) (hashDifficulty : UInt64)
    (blockHex : String) (hash : Hash) (returned : Option (Except PoolError Unit)) :
    credits (((returned.bind fun submission => m.settle { env with submission } worker height
      (.ok (.block hashDifficulty blockHex hash))).map (·.effects)).getD []) = handlerCredits returned := by
  match returned with
  | none => rfl
  | some (.ok ()) => rfl
  | some (.error e) => rfl

/-- The credit is the handler's and the retrier's. -/
theorem submitBlock_credits {σ : Type} (env : Env) (worker : String) (height : UInt64) (m : Miner σ) (hashDifficulty : UInt64)
    (blockHex : String) (hash : Hash) (spawned : Instant) (attempts : List Attempt) :
    credits (m.submitBlock env worker height hashDifficulty blockHex hash spawned attempts).effects =
      handlerCredits (submitFoundBlock height (hashDisplayHex hash) worker spawned 1 attempts).1 +
        credits (submitFoundBlock height (hashDisplayHex hash) worker spawned 1 attempts).2.effects := by
  rw [← settle_credits env worker height m hashDifficulty blockHex hash]
  unfold Miner.submitBlock credits
  exact List.countP_append

theorem replayArchivedBlock_uncredited (height : UInt64) (hashHex : String) (spawned : Instant) (attempts : List Attempt) :
    (replayArchivedBlock height hashHex spawned attempts).effects = [] := by
  match attempts with
  | [] => rfl
  | a :: rest =>
    simp only [replayArchivedBlock]
    split
    · rfl
    · split
      · rfl
      · exact spawnResubmitTask_uncredited rest
    · rfl

/-- Whatever the node answers, in either protocol: a found block is credited exactly once if an attempt before the first
consensus rejection is accepted that is inline or in a turn of the retrier begun before its deadline, and never otherwise;
no attempt follows an acceptance or a consensus rejection; and a replay credits nothing. -/
theorem block_credited_once {σ : Type} (env : Env) (worker : String) (height : UInt64) (m : Miner σ) (hashDifficulty : UInt64)
    (blockHex : String) (hash : Hash) (spawned : Instant) {attempts : List Attempt} (ordered : TurnsInOrder attempts) :
    (Creditable Attempt.turn 3 (spawned + submitRetryDeadline) attempts →
      credits (m.submitBlock env worker height hashDifficulty blockHex hash spawned attempts).effects = 1) ∧
    (¬ Creditable Attempt.turn 3 (spawned + submitRetryDeadline) attempts →
      credits (m.submitBlock env worker height hashDifficulty blockHex hash spawned attempts).effects = 0) ∧
    (m.submitBlock env worker height hashDifficulty blockHex hash spawned attempts).made <+: attempts ∧
    StopsAtVerdict (m.submitBlock env worker height hashDifficulty blockHex hash spawned attempts).made ∧
    ∀ hashHex, (replayArchivedBlock height hashHex spawned attempts).effects = [] := by
  classical
  have kept := @submitFoundBlock_kept height (hashDisplayHex hash) worker spawned 1 attempts
  have total : credits (m.submitBlock env worker height hashDifficulty blockHex hash spawned attempts).effects =
      if Creditable Attempt.turn 3 (spawned + submitRetryDeadline) attempts then 1 else 0 := by
    rw [submitBlock_credits]
    exact @submitFoundBlock_credits height (hashDisplayHex hash) worker spawned 1 attempts ordered (by decide)
  refine ⟨fun creditable => ?_, fun never => ?_, kept.made, kept.stops, fun hashHex => ?_⟩
  · rw [total, if_pos creditable]
  · rw [total, if_neg never]
  · exact replayArchivedBlock_uncredited height hashHex spawned attempts

/-! ### An attempt after the deadline -/

def answered (turn sent : Nat) (first : Result JsonResult) : Attempt := ⟨turn, sent, first, none⟩

/-- The node is away for three inline attempts; the retrier's turn begins five seconds before its deadline and its attempt
goes out five seconds after it. -/
def lateAttempts : List Attempt :=
  [answered 0 0 .panic, answered (secs 1) (secs 1) .panic, answered (secs 3) (secs 3) .panic,
    answered (secs 7195) (secs 7205) (.ok .null)]

def anyEnv : Env where
  crates := mainnetCrates
  engine := .new
  clock := ⟨0, 0⟩
  submission := .ok ()
  serial := 0

def anyMiner : Miner Unit := .new exampleConfig () 0

theorem credited_after_deadline :
    credits (anyMiner.submitBlock anyEnv "worker" 900000 1 "" (.zero 32) 0 lateAttempts).effects = 1 ∧
      ¬ Creditable Attempt.sent 3 ((0 : Instant) + submitRetryDeadline) lateAttempts := by
  refine ⟨by decide, ?_⟩
  unfold lateAttempts
  simp only [creditable_cons, not_creditable_nil, and_false, or_false]
  decide

theorem block_credited_once_late :
    TurnsInOrder lateAttempts ∧ Creditable Attempt.turn 3 ((0 : Instant) + submitRetryDeadline) lateAttempts ∧
      credits (anyMiner.submitBlock anyEnv "worker" 900000 1 "" (.zero 32) 0 lateAttempts).effects = 1 := by
  have ordered : TurnsInOrder lateAttempts := by
    unfold TurnsInOrder
    decide
  have creditable : Creditable Attempt.turn 3 ((0 : Instant) + submitRetryDeadline) lateAttempts := by
    unfold lateAttempts
    simp only [creditable_cons, not_creditable_nil, and_false, or_false]
    decide
  exact ⟨ordered, creditable,
    (block_credited_once anyEnv "worker" 900000 anyMiner 1 "" (.zero 32) 0 ordered).1 creditable⟩

end SoloPool
