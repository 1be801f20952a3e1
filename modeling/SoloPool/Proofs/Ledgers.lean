import SoloPool.Network.Pool
import SoloPool.Proofs.Rounds
import SoloPool.Proofs.Server

/-!
# What a submit is counted in

Both `handle_submit`s end in one of a few ways, each with its own calls into the statistics and metrics (`Exit`). A
share is entered in six ledgers by hand; here they are followed through a sequence of submits, each handled to its end.
-/

namespace SoloPool
open Lib Stats

inductive Share where
  | sv1 (params : SubmitParams)
  | sv2 (submit : Sv2.SubmitSharesExtended)

/-- Whether a reply accepts or rejects a share. -/
def Sv1.Line.verdict? : Line → Option Bool
  | .ok => some true
  | .err _ => some false
  | _ => none

def Sv2.Frame.verdict? : Frame → Option Bool
  | .submitSuccess .. => some true
  | .submitError .. => some false
  | _ => none

structure Receipt where
  turn : Turn
  /-- What the submit was answered with, if it was answered. -/
  answer : Option Bool

namespace Peer

def submit (env : Env) : Peer → Share → Option Receipt
  | .sv1 m written, .sv1 params =>
    let handled := Sv1.handleSubmit env m params
    some { turn := Sv1.turn written handled, answer := handled.sent.head?.bind Sv1.Line.verdict? }
  | .sv2 m written, .sv2 submit =>
    let handled := Sv2.handleSubmit env m submit
    some { turn := Sv2.turn written handled, answer := handled.sent.head?.bind Sv2.Frame.verdict? }
  | _, _ => none

def shareSet : Peer → ShareSet
  | .sv1 m _ => m.session.shareSet
  | .sv2 m _ => m.session.shareSet

/-- The validation of a submit that comes as far as that. -/
def validates (env : Env) : Peer → Share → Option (Result ShareResult)
  | .sv1 m _, .sv1 params =>
    if m.session.authorized ∧ params.extranonce2.length = m.session.extranonce2Size then
      (env.engine.findJob params.jobId).map (fun entry => validateShareNoDedup env.crates (m.session.shareParams params)
        entry.job entry m.session.extranonce1 m.session.minDifficulty)
    else none
  | .sv2 m _, .sv2 submit =>
    if m.session.channelOpen ∧ submit.extranonce.length = m.session.extranonceSize then
      ((m.session.engineJobId submit.jobId).bind env.engine.findJob).map (fun entry =>
        validateShareNoDedup env.crates (Sv2.Session.shareParams submit entry.job.jobId) entry.job entry
          m.session.extranoncePrefix m.session.minDifficulty)
    else none
  | _, _ => none

end Peer

/-! ### The exits of a submit -/

/-- How a submit ends: its answer, its calls and the session's record, by the result that is valid and new to the share
set, if there is one. -/
inductive Exit (env : Env) (worker : String) (v : Vardiff) (fresh : Option ShareResult) :
    Option Bool → List Effect → Vardiff → Prop where
  | silent (effects : List Effect) (v' : Vardiff) (unseen : fresh = none) : Exit env worker v fresh none effects v'
  | refused (label : RejectLabel) (rest : List Effect) (unseen : fresh = none)
      (quiet : rest = [] ∨ ∃ reason, rest = [.workerShareRejected worker reason]) :
      Exit env worker v fresh (some false) (.metric (.shareRejected label worker) :: .shareRejected :: rest) v
  | failed (result : ShareResult) (e : PoolError) (new : fresh = some result) (block : result.isBlock = true)
      (submission : env.submission = .error e) :
      Exit env worker v fresh (some false) [.metric (.blockSubmissionFailure e.submitFailureLabel)] v
  | valid (result : ShareResult) (credited : UInt64) (new : fresh = some result) (share : result.isBlock = false)
      (credit : credited = v.creditFor result.hashDifficulty) :
      Exit env worker v fresh (some true) [
        .logShare worker credited env.serial, .metric (.shareAccepted credited worker),
        .shareAccepted result.hashDifficulty credited, .workerShareAccepted worker result.hashDifficulty,
        .markWorkerSubmit worker] (v.recordShare env.clock.instant credited (some env.serial))
  | block (result : ShareResult) (credited : UInt64) (hash : String) (height : UInt64) (new : fresh = some result)
      (block : result.isBlock = true) (submission : env.submission = .ok ())
      (credit : credited = v.creditFor result.hashDifficulty) :
      Exit env worker v fresh (some true) [
        .metric .blockFound, .metric .blockSubmissionSuccess, .blockFound worker hash height,
        .logShare worker credited env.serial, .shareAccepted result.hashDifficulty credited,
        .workerShareAccepted worker result.hashDifficulty, .markWorkerSubmit worker]
        (v.recordShare env.clock.instant credited (some env.serial))

def freshOf : Result ShareResult → Option ShareResult
  | .ok result => some result
  | _ => none

/-- The result of a submit that is valid and new to the share set. -/
def Peer.fresh (env : Env) (peer : Peer) (share : Share) : Option ShareResult :=
  (peer.validates env share).bind (fun validated => freshOf (peer.shareSet.dedup validated).1)

theorem settle_exit {σ : Type} {env : Env} {worker : String} {height : UInt64} {m : Miner σ} {result : Result ShareResult}
    {settled : Settled σ} (ends : m.settle env worker height result = some settled) :
    Exit env worker m.vardiff (freshOf result) (some (match settled.verdict with | .accepted => true | _ => false))
      settled.effects settled.miner.vardiff := by
  unfold Miner.settle at ends
  split at ends
  · obtain rfl := Option.some.inj ends
    exact .valid _ _ rfl rfl rfl
  · split at ends <;> rename_i submission <;> obtain rfl := Option.some.inj ends
    · exact .block _ _ _ _ rfl rfl submission rfl
    · exact .failed _ _ rfl rfl submission
  · obtain rfl := Option.some.inj ends
    exact .refused _ _ rfl (.inr ⟨_, rfl⟩)
  · cases ends

theorem settle_none {σ : Type} {env : Env} {worker : String} {height : UInt64} {m : Miner σ} {result : Result ShareResult}
    (ends : m.settle env worker height result = none) : freshOf result = none := by
  unfold Miner.settle at ends
  split at ends
  · cases ends
  · split at ends <;> cases ends
  · cases ends
  · rfl

/-- The outcome of a submit by its validation, if it comes as far as that; a valid share does not end the session. -/
inductive Judging (set : ShareSet) (validated : Option (Result ShareResult)) : SubmitOutcome → Bool → Prop where
  | unauthorized (disconnect : Bool) (none : validated = none) : Judging set validated .unauthorized disconnect
  | badExtranonce (got expected : Nat) (disconnect : Bool) (none : validated = none) :
      Judging set validated (.badExtranonce got expected) disconnect
  | jobNotFound (disconnect : Bool) (none : validated = none) : Judging set validated .jobNotFound disconnect
  | judged (result : Result ShareResult) (disconnect : Bool) (some : validated = some result)
      (stays : disconnect = true → freshOf (set.dedup result).1 = none) :
      Judging set validated (.judged (set.dedup result).1) disconnect

theorem guardAfter_stays {guard : SessionGuard} {result : Result ShareResult} (leaves : (guardAfter guard result).1 = true) :
    freshOf result = none := by
  cases result with
  | ok => cases leaves
  | err | panic => rfl

theorem Sv1.handleSubmit_judging (env : Env) (m : Miner Session) (params : SubmitParams) (written : List Line) :
    Judging m.session.shareSet ((Peer.sv1 m written).validates env (.sv1 params))
      (m.session.handleSubmit env.crates env.engine params).outcome
      (m.session.handleSubmit env.crates env.engine params).disconnect := by
  unfold Session.handleSubmit Peer.validates
  dsimp only
  by_cases authorized : m.session.authorized = true
  · have admitted : ¬ (!m.session.authorized) = true := by simp [authorized]
    by_cases width : params.extranonce2.length = m.session.extranonce2Size
    · rw [if_pos ⟨authorized, width⟩, if_neg admitted, if_neg (not_not.mpr width)]
      cases env.engine.findJob params.jobId with
      | none => exact .jobNotFound _ rfl
      | some entry => exact .judged _ _ rfl guardAfter_stays
    · rw [if_neg (fun both => width both.2), if_neg admitted, if_pos width]
      exact .badExtranonce _ _ _ rfl
  · rw [if_neg (fun both => authorized both.1), if_pos (by simpa using authorized)]
    exact .unauthorized _ rfl

theorem Sv2.handleSubmit_judging (env : Env) (m : Miner Session) (submit : SubmitSharesExtended) (written : List Frame) :
    Judging m.session.shareSet ((Peer.sv2 m written).validates env (.sv2 submit))
      (m.session.handleSubmit env.crates env.engine submit).outcome
      (m.session.handleSubmit env.crates env.engine submit).disconnect := by
  unfold Session.handleSubmit Peer.validates
  dsimp only
  by_cases channel : m.session.channelOpen = true
  · have admitted : ¬ (!m.session.channelOpen) = true := by simp [channel]
    by_cases width : submit.extranonce.length = m.session.extranonceSize
    · rw [if_pos ⟨channel, width⟩, if_neg admitted, if_neg (not_not.mpr width)]
      cases (m.session.engineJobId submit.jobId).bind env.engine.findJob with
      | none => exact .jobNotFound _ rfl
      | some entry => exact .judged _ _ rfl guardAfter_stays
    · rw [if_neg (fun both => width both.2), if_neg admitted, if_pos width]
      exact .badExtranonce _ _ _ rfl
  · rw [if_neg (fun both => channel both.1), if_pos (by simpa using channel)]
    exact .unauthorized _ rfl

theorem Sv1.handleSubmit_exit (env : Env) (m : Miner Session) (params : SubmitParams) (written : List Line) :
    Exit env (workerLabel m.session.worker) m.vardiff ((Peer.sv1 m written).fresh env (.sv1 params))
      ((handleSubmit env m params).sent.head?.bind Line.verdict?) (handleSubmit env m params).effects
      (handleSubmit env m params).miner.vardiff := by
  have judging := handleSubmit_judging env m params written
  unfold handleSubmit Peer.fresh
  generalize m.session.handleSubmit env.crates env.engine params = submitted at judging
  obtain ⟨outcome, disconnect, session⟩ := submitted
  dsimp only at judging ⊢
  cases judging with
  | unauthorized _ none => exact .refused _ _ (by rw [none]; rfl) (.inl rfl)
  | badExtranonce got expected _ none =>
    cases disconnect with
    | true => exact .silent _ _ (by rw [none]; rfl)
    | false => exact .refused _ _ (by rw [none]; rfl) (.inr ⟨_, rfl⟩)
  | jobNotFound _ none => exact .refused _ _ (by rw [none]; rfl) (.inr ⟨_, rfl⟩)
  | judged result _ some stays =>
    rw [some]
    dsimp only [Option.bind_some]
    split
    · rename_i panicked
      exact .silent _ _ (settle_none panicked)
    · rename_i settled ends
      have exit := settle_exit ends
      cases disconnect with
      | true => exact .silent _ _ (stays rfl)
      | false =>
        revert exit
        cases settled.verdict <;> exact id

theorem Sv2.handleSubmit_exit (env : Env) (m : Miner Session) (submit : SubmitSharesExtended) (written : List Frame) :
    Exit env (workerLabel m.session.worker) m.vardiff ((Peer.sv2 m written).fresh env (.sv2 submit))
      ((handleSubmit env m submit).sent.head?.bind Frame.verdict?) (handleSubmit env m submit).effects
      (handleSubmit env m submit).miner.vardiff := by
  have judging := handleSubmit_judging env m submit written
  unfold handleSubmit Peer.fresh
  generalize m.session.handleSubmit env.crates env.engine submit = submitted at judging
  obtain ⟨outcome, disconnect, session⟩ := submitted
  dsimp only at judging ⊢
  cases judging with
  | unauthorized _ none => exact .silent _ _ (by rw [none]; rfl)
  | badExtranonce got expected _ none =>
    cases disconnect with
    | true => exact .silent _ _ (by rw [none]; rfl)
    | false => exact .refused _ _ (by rw [none]; rfl) (.inr ⟨_, rfl⟩)
  | jobNotFound _ none => exact .refused _ _ (by rw [none]; rfl) (.inr ⟨_, rfl⟩)
  | judged result _ some stays =>
    rw [some]
    dsimp only [Option.bind_some]
    split
    · rename_i panicked
      exact .silent _ _ (settle_none panicked)
    · rename_i settled ends
      have exit := settle_exit ends
      cases disconnect with
      | true => exact .silent _ _ (stays rfl)
      | false =>
        revert exit
        cases settled.verdict <;> exact id

theorem Peer.submit_exit {env : Env} {peer : Peer} {share : Share} {receipt : Receipt}
    (submitted : peer.submit env share = some receipt) :
    Exit env (workerLabel peer.worker) peer.vardiff (peer.fresh env share) receipt.answer receipt.turn.effects
      receipt.turn.peer.vardiff := by
  unfold submit at submitted
  split at submitted
  · obtain rfl := Option.some.inj submitted
    exact Sv1.handleSubmit_exit ..
  · obtain rfl := Option.some.inj submitted
    exact Sv2.handleSubmit_exit ..
  · cases submitted

/-! ### The pool's books -/

/-- What the statistics and metrics say of all shares: the share log's buffer, whether there is a log, the work of the
closed rounds, the blocks that closed them, the work of the running round, and the counts. -/
structure Books where
  pending : List LoggedShare
  logs : Bool
  closed : Nat
  listed : List String
  round : Nat
  accepted : Nat
  rejected : Nat
  shareWork : String → UInt64
  acceptedTotal : String → UInt64

def Shared.books (s : Shared) : Books where
  pending := s.stats.pendingShares
  logs := s.stats.store.isSome
  closed := recorded s.stats.foundBlocks
  listed := s.stats.foundBlocks.map (·.hash)
  round := s.stats.roundWork
  accepted := s.stats.sharesAccepted
  rejected := s.stats.sharesRejected
  shareWork := s.metrics.shareWork
  acceptedTotal := s.metrics.sharesAccepted

def Books.log (b : Books) (share : LoggedShare) : Books :=
  if b.logs ∧ b.pending.length < PoolStats.maxPendingShares then { b with pending := b.pending ++ [share] } else b

/-- The work of all rounds. -/
def Books.work (b : Books) : Nat := b.closed + b.round

def Books.close (b : Books) (hash : String) : Books :=
  if hash ∈ b.listed then b else { b with closed := b.closed + b.round, listed := b.listed ++ [hash], round := 0 }

/-- What a call does to the books. -/
def Effect.book (clock : Clock) (b : Books) : Effect → Books
  | .metric (.shareAccepted credited worker) =>
    { b with
      shareWork := Metrics.increment b.shareWork worker credited
      acceptedTotal := Metrics.increment b.acceptedTotal worker 1 }
  | .shareAccepted _ credited => { b with accepted := b.accepted + 1, round := addWork b.round credited }
  | .shareRejected => { b with rejected := b.rejected + 1 }
  | .blockFound _ hash _ => b.close hash
  | .logShare worker credited serial => b.log { worker, ts := clock.unix, credited, serial := some serial }
  | _ => b

theorem shareAccepted_books (p : PoolStats) (m : Metrics) (difficulty credited : UInt64) :
    ({ stats := p.shareAccepted difficulty credited, metrics := m } : Shared).books =
      { ({ stats := p, metrics := m } : Shared).books with
        accepted := p.sharesAccepted + 1, round := addWork p.roundWork credited } := by
  unfold PoolStats.shareAccepted
  dsimp only
  split <;> split <;>
    simp only [Shared.books, PoolStats.updateStore, Option.isSome_map]

theorem blockFound_books (p : PoolStats) (m : Metrics) (worker hash : String) (height now : UInt64) :
    ({ stats := p.blockFound worker hash height now, metrics := m } : Shared).books =
      ({ stats := p, metrics := m } : Shared).books.close hash := by
  have listed : p.foundBlocks.any (fun block => block.hash == hash) = true ↔ hash ∈ p.foundBlocks.map (·.hash) := by
    simp
  unfold PoolStats.blockFound Books.close
  by_cases known : hash ∈ p.foundBlocks.map (·.hash)
  · rw [if_pos (listed.mpr known)]
    exact (if_pos known).symm
  · rw [if_neg (fun found => known (listed.mp found))]
    refine Eq.trans ?_ (if_neg known).symm
    simp [Shared.books, recorded]

theorem logShare_books (p : PoolStats) (m : Metrics) (worker : String) (credited now : UInt64) (serial : Option Nat) :
    ({ stats := p.logShare worker credited now serial, metrics := m } : Shared).books =
      ({ stats := p, metrics := m } : Shared).books.log { worker, ts := now, credited, serial } := by
  unfold PoolStats.logShare Books.log
  have open_iff : p.store.isNone = true ↔ ¬ p.store.isSome = true := by cases p.store <;> simp
  by_cases full : p.store.isNone = true ∨ p.pendingShares.length ≥ PoolStats.maxPendingShares
  · rw [if_pos full, if_neg]
    rintro ⟨logs, room⟩
    rcases full with shut | full
    · exact open_iff.mp shut logs
    · exact Nat.not_lt.mpr full room
  · rw [if_neg full, if_pos]
    · rfl
    · rw [not_or] at full
      exact ⟨not_not.mp (fun shut => full.1 (open_iff.mpr shut)), Nat.not_le.mp full.2⟩

theorem workerShareAccepted_books (p : PoolStats) (m : Metrics) (worker : String) (difficulty now : UInt64) :
    ({ stats := p.workerShareAccepted worker difficulty now, metrics := m } : Shared).books =
      ({ stats := p, metrics := m } : Shared).books := by
  unfold PoolStats.workerShareAccepted
  dsimp only
  split <;> simp [Shared.books, PoolStats.updateStore, PoolStats.updateState, PoolStats.setState]

theorem markWorkerOnline_books (p : PoolStats) (m : Metrics) (worker : String) (difficulty now : UInt64) :
    ({ stats := p.markWorkerOnline worker difficulty now, metrics := m } : Shared).books =
      ({ stats := p, metrics := m } : Shared).books := by
  unfold PoolStats.markWorkerOnline
  split <;> rfl

theorem updateWorkerVardiff_books (p : PoolStats) (m : Metrics) (worker : String) (difficulty now : UInt64) :
    ({ stats := p.updateWorkerVardiff worker difficulty now, metrics := m } : Shared).books =
      ({ stats := p, metrics := m } : Shared).books := by
  unfold PoolStats.updateWorkerVardiff
  split
  · rfl
  · exact markWorkerOnline_books ..

theorem takeShareHistory_books (p : PoolStats) (m : Metrics) (worker : String) (now : UInt64) (instant : Instant) :
    ({ stats := (p.takeShareHistory worker now instant).2, metrics := m } : Shared).books =
      ({ stats := p, metrics := m } : Shared).books := by
  unfold PoolStats.takeShareHistory
  split <;> rfl

theorem Effect.run_books (effect : Effect) (clock : Clock) (v : Vardiff) (shared : Shared) :
    (effect.run clock v shared).2.books = effect.book clock shared.books := by
  cases effect with
  | metric event => cases event <;> rfl
  | shareAccepted => exact shareAccepted_books ..
  | blockFound => exact blockFound_books ..
  | logShare => exact logShare_books ..
  | workerShareAccepted => exact workerShareAccepted_books ..
  | markWorkerOnline => exact markWorkerOnline_books ..
  | updateWorkerVardiff => exact updateWorkerVardiff_books ..
  | takeShareHistory => exact takeShareHistory_books ..
  | _ => rfl

theorem runEffects_books (effects : List Effect) (clock : Clock) (v : Vardiff) (shared : Shared) :
    (runEffects clock v shared effects).2.books = effects.foldl (Effect.book clock) shared.books := by
  unfold runEffects
  induction effects generalizing v shared with
  | nil => rfl
  | cons effect rest ih =>
    rw [List.foldl_cons, List.foldl_cons, ← effect.run_books clock v shared]
    exact ih _ _

/-- Whether a call moves a share record. -/
def Effect.movesRecord : Effect → Bool
  | .stashShareHistory _ | .takeShareHistory _ => true
  | _ => false

theorem runEffects_vardiff {effects : List Effect} (still : ∀ effect ∈ effects, effect.movesRecord = false)
    (clock : Clock) (v : Vardiff) (shared : Shared) : (runEffects clock v shared effects).1 = v := by
  unfold runEffects
  induction effects generalizing shared with
  | nil => rfl
  | cons effect rest ih =>
    have same : (effect.run clock v shared).1 = v := by
      have own := still effect List.mem_cons_self
      cases effect <;> first | rfl | cases own
    have moved : effect.run clock v shared = (v, (effect.run clock v shared).2) := Prod.ext same rfl
    rw [List.foldl_cons]
    dsimp only
    rw [moved]
    exact ih (fun e among => still e (List.mem_cons_of_mem _ among)) _

/-! ### Sequences of submits -/

/-- Sessions of both protocols over the same statistics. -/
structure Desk where
  peers : Nat → Peer
  shared : Shared

structure Submission where
  id : Nat
  env : Env
  share : Share

def Desk.settled (d : Desk) (x : Submission) (receipt : Receipt) : Desk :=
  let after := runEffects x.env.clock receipt.turn.peer.vardiff d.shared receipt.turn.effects
  { peers := Function.update d.peers x.id (receipt.turn.peer.setVardiff after.1), shared := after.2 }

def Desk.submit (d : Desk) (x : Submission) : Option (Option Bool × Desk) :=
  ((d.peers x.id).submit x.env x.share).map (fun receipt => (receipt.answer, d.settled x receipt))

def Desk.record (d : Desk) (id : Nat) : List ShareTime := (d.peers id).vardiff.shareTimes

/-- `P` holds of every submit of a sequence, each in the state the ones before it left. -/
def Desk.Throughout (P : Desk → Submission → Prop) : Desk → List Submission → Prop
  | _, [] => True
  | d, x :: rest => P d x ∧ ∀ answer next, d.submit x = some (answer, next) → Throughout P next rest

theorem Desk.throughout_iff {P Q : Desk → Submission → Prop} (each : ∀ d x, P d x ↔ Q d x) (d : Desk)
    (submissions : List Submission) : d.Throughout P submissions ↔ d.Throughout Q submissions := by
  induction submissions generalizing d with
  | nil => exact Iff.rfl
  | cons x rest ih =>
    unfold Throughout
    rw [each d x]
    constructor
    · exact fun ⟨own, after⟩ => ⟨own, fun answer next moved => (ih next).mp (after answer next moved)⟩
    · exact fun ⟨own, after⟩ => ⟨own, fun answer next moved => (ih next).mpr (after answer next moved)⟩

/-- The difficulty a submit is credited with, should it be accepted. -/
def Desk.creditOf (d : Desk) (x : Submission) : Option UInt64 :=
  ((d.peers x.id).fresh x.env x.share).map (fun result => (d.peers x.id).vardiff.creditFor result.hashDifficulty)

/-- One share stands once in each ledger: at the end of the session's record, from which only shares older than a day
were dropped, in the buffer of the share log, in the work of the rounds, in both counts and in the work counter. -/
structure Entered (x : Submission) (worker : String) (credited : UInt64) (record record' : List ShareTime)
    (b b' : Books) : Prop where
  recorded : ∃ dropped kept, record = dropped ++ kept ∧ (∀ old ∈ dropped, old.recent x.env.clock.instant = false) ∧
    record' = kept ++ [{ time := x.env.clock.instant, credited, serial := some x.env.serial }]
  logged : b'.pending = if b.logs ∧ b.pending.length < PoolStats.maxPendingShares then
    b.pending ++ [{ worker, ts := x.env.clock.unix, credited, serial := some x.env.serial }] else b.pending
  work : b'.work = b.work + credited.toNat
  shareWork : b'.shareWork = Metrics.increment b.shareWork worker credited
  accepted : b'.accepted = b.accepted + 1
  acceptedTotal : b'.acceptedTotal = Metrics.increment b.acceptedTotal worker 1

structure Untouched (record record' : List ShareTime) (b b' : Books) : Prop where
  recorded : record' = record
  logged : b'.pending = b.pending
  work : b'.work = b.work
  shareWork : b'.shareWork = b.shareWork
  accepted : b'.accepted = b.accepted
  acceptedTotal : b'.acceptedTotal = b.acceptedTotal

/-- The ledgers agree on a submit: an accepted share is entered once in each, a rejected one in none. -/
def Desk.Agree (d : Desk) (x : Submission) : Prop :=
  ∀ answer next, d.submit x = some (answer, next) →
    (answer = some true → ∃ credited, d.creditOf x = some credited ∧
      Entered x (workerLabel (d.peers x.id).worker) credited (d.record x.id) (next.record x.id) d.shared.books
        next.shared.books) ∧
    (answer = some false → Untouched (d.record x.id) (next.record x.id) d.shared.books next.shared.books)

/-- The submit is a block new to the session. -/
def Desk.FindsBlock (d : Desk) (x : Submission) : Prop :=
  ∃ result, (d.peers x.id).fresh x.env x.share = some result ∧ result.isBlock = true

theorem recordShare_recorded (v : Vardiff) (now : Instant) (credited : UInt64) (serial : Option Nat) :
    ∃ dropped kept, v.shareTimes = dropped ++ kept ∧ (∀ old ∈ dropped, old.recent now = false) ∧
      (v.recordShare now credited serial).shareTimes = kept ++ [{ time := now, credited, serial }] := by
  refine ⟨v.shareTimes.takeWhile (fun share => !share.recent now), v.shareTimes.dropWhile (fun share => !share.recent now),
    List.takeWhile_append_dropWhile.symm, ?_, ?_⟩
  · intro old among
    simpa using List.mem_takeWhile_imp among
  · have now_recent : (!({ time := now, credited, serial } : ShareTime).recent now) = false := by
      simp [ShareTime.recent, elapsed]
    unfold Vardiff.recordShare
    dsimp only
    rw [List.dropWhile_append]
    split
    · rename_i gone
      rw [List.isEmpty_iff.mp gone, List.dropWhile_cons_of_neg (by simp [now_recent])]
      rfl
    · rfl

theorem Peer.setVardiff_vardiff (peer : Peer) (v : Vardiff) : (peer.setVardiff v).vardiff = v := by cases peer <;> rfl

theorem Desk.settled_record (d : Desk) (x : Submission) {receipt : Receipt}
    (still : ∀ effect ∈ receipt.turn.effects, effect.movesRecord = false) :
    (d.settled x receipt).record x.id = receipt.turn.peer.vardiff.shareTimes := by
  unfold record settled
  dsimp only
  rw [Function.update_self, Peer.setVardiff_vardiff, runEffects_vardiff still]

theorem Peer.submit_isSome {env : Env} {peer : Peer} {share : Share} {result : ShareResult}
    (found : peer.fresh env share = some result) : ∃ receipt, peer.submit env share = some receipt := by
  unfold Peer.fresh at found
  obtain ⟨validated, validates, _⟩ := Option.bind_eq_some_iff.mp found
  cases peer <;> cases share <;> first | exact ⟨_, rfl⟩ | cases validates

theorem increment_ne {α : Type} [DecidableEq α] (counter : α → UInt64) (label : α) :
    counter ≠ Metrics.increment counter label 1 := by
  intro same
  have at_label := congrFun same label
  rw [Metrics.increment, Function.update_self] at at_label
  exact absurd (UInt64.toNat_inj.mpr at_label) (by
    rw [UInt64.toNat_add]
    have := (counter label).toNat_lt
    simp only [UInt64.toNat_one]
    omega)

theorem Desk.submit_exit {d next : Desk} {x : Submission} {answer : Option Bool} (moved : d.submit x = some (answer, next)) :
    ∃ effects v', Exit x.env (workerLabel (d.peers x.id).worker) (d.peers x.id).vardiff
        ((d.peers x.id).fresh x.env x.share) answer effects v' ∧
      ((∀ effect ∈ effects, effect.movesRecord = false) → next.record x.id = v'.shareTimes) ∧
      next.shared.books = effects.foldl (Effect.book x.env.clock) d.shared.books := by
  obtain ⟨receipt, submitted, same⟩ := Option.map_eq_some_iff.mp moved
  obtain ⟨rfl, rfl⟩ := Prod.mk.inj same
  exact ⟨receipt.turn.effects, receipt.turn.peer.vardiff, Peer.submit_exit submitted, d.settled_record x, runEffects_books ..⟩

theorem Books.log_pending (b : Books) (share : LoggedShare) : (b.log share).pending =
    if b.logs ∧ b.pending.length < PoolStats.maxPendingShares then b.pending ++ [share] else b.pending := by
  unfold Books.log
  split <;> rfl

/-- The log's buffer is the only ledger that `log_share` touches. -/
theorem Books.log_eq (b : Books) (share : LoggedShare) : b.log share = { b with pending := (b.log share).pending } := by
  unfold Books.log
  split <;> rfl

theorem book_valid (clock : Clock) (b : Books) (worker : String) (credited difficulty : UInt64) (serial : Nat) :
    [.logShare worker credited serial, .metric (.shareAccepted credited worker), .shareAccepted difficulty credited,
      .workerShareAccepted worker difficulty, .markWorkerSubmit worker].foldl (Effect.book clock) b =
    { b with
      pending := (b.log { worker, ts := clock.unix, credited, serial := some serial }).pending
      accepted := b.accepted + 1
      round := addWork b.round credited
      shareWork := Metrics.increment b.shareWork worker credited
      acceptedTotal := Metrics.increment b.acceptedTotal worker 1 } := by
  dsimp only [List.foldl, Effect.book]
  rw [Books.log_eq]

theorem Books.close_counts (b : Books) (hash : String) : (b.close hash).accepted = b.accepted ∧
    (b.close hash).rejected = b.rejected ∧ (b.close hash).acceptedTotal = b.acceptedTotal := by
  unfold close
  split <;> exact ⟨rfl, rfl, rfl⟩

/-- A block is counted by the pool and not by the metrics. -/
theorem book_block (clock : Clock) (b : Books) (worker hash : String) (height credited difficulty : UInt64) (serial : Nat) :
    let after := [.metric .blockFound, .metric .blockSubmissionSuccess, .blockFound worker hash height,
      .logShare worker credited serial, .shareAccepted difficulty credited, .workerShareAccepted worker difficulty,
      .markWorkerSubmit worker].foldl (Effect.book clock) b
    after.accepted = b.accepted + 1 ∧ after.rejected = b.rejected ∧ after.acceptedTotal = b.acceptedTotal := by
  obtain ⟨accepted, rejected, acceptedTotal⟩ := b.close_counts hash
  dsimp only [List.foldl, Effect.book]
  rw [Books.log_eq]
  exact ⟨congrArg (· + 1) accepted, rejected, acceptedTotal⟩

/-- A valid share that is new to the session adds to the running round without being rounded. -/
def Desk.AddsExactly (d : Desk) (x : Submission) : Prop :=
  ∀ result, (d.peers x.id).fresh x.env x.share = some result → result.isBlock = false → ∀ credited ∈ d.creditOf x,
    addWork d.shared.stats.roundWork credited = d.shared.stats.roundWork + credited.toNat

theorem Desk.submit_of_fresh {d : Desk} {x : Submission} {result : ShareResult}
    (found : (d.peers x.id).fresh x.env x.share = some result) : ∃ answer next, d.submit x = some (answer, next) := by
  obtain ⟨receipt, submitted⟩ := Peer.submit_isSome found
  exact ⟨_, _, by rw [submit, submitted]; rfl⟩

/-- A block whose inline submission succeeds is not entered in the metrics. -/
theorem Desk.Agree.ordinary {d : Desk} {x : Submission} (agree : d.Agree x) :
    ¬ (d.FindsBlock x ∧ x.env.submission = .ok ()) := by
  rintro ⟨⟨result, found, isBlock⟩, submission⟩
  obtain ⟨answer, next, moved⟩ := submit_of_fresh found
  have own := agree _ _ moved
  obtain ⟨effects, v', exit, _, books⟩ := submit_exit moved
  cases exit with
  | silent _ _ unseen | refused _ _ unseen => rw [found] at unseen; cases unseen
  | failed _ e _ _ failed => rw [submission] at failed; cases failed
  | valid other _ new share =>
    obtain rfl := Option.some.inj (found.symm.trans new)
    rw [isBlock] at share
    cases share
  | block =>
    -- Neither counter of the metrics has moved.
    obtain ⟨_, _, entered⟩ := own.1 rfl
    have still : next.shared.books.acceptedTotal = d.shared.books.acceptedTotal := by
      rw [books]
      exact (book_block ..).2.2
    rw [entered.acceptedTotal] at still
    exact increment_ne _ _ still.symm

theorem Desk.Agree.exact {d : Desk} {x : Submission} (agree : d.Agree x) : d.AddsExactly x := by
  intro result found share credited credit
  obtain ⟨answer, next, moved⟩ := submit_of_fresh found
  have own := agree _ _ moved
  obtain ⟨effects, v', exit, _, books⟩ := submit_exit moved
  cases exit with
  | silent _ _ unseen | refused _ _ unseen => rw [found] at unseen; cases unseen
  | failed other e new isBlock | block other _ _ _ new isBlock =>
    obtain rfl := Option.some.inj (found.symm.trans new)
    rw [isBlock] at share
    cases share
  | valid other added new _ same =>
    obtain ⟨entry, creditOf, entered⟩ := own.1 rfl
    obtain rfl : entry = credited := Option.some.inj (creditOf.symm.trans credit)
    obtain rfl : added = entry := by
      rw [Desk.creditOf, new] at creditOf
      exact same.trans (Option.some.inj creditOf)
    have work := entered.work
    rw [books, book_valid] at work
    have round : d.shared.books.round = d.shared.stats.roundWork := rfl
    simp only [Books.work, round] at work
    omega

/-- A submit is entered in all ledgers or in none, except for a block whose inline submission succeeds and for a share that
the work of the round is rounded for. -/
theorem Desk.agree_iff (d : Desk) (x : Submission) :
    d.Agree x ↔ ¬ (d.FindsBlock x ∧ x.env.submission = .ok ()) ∧ d.AddsExactly x := by
  refine ⟨fun agree => ⟨agree.ordinary, agree.exact⟩, ?_⟩
  rintro ⟨ordinary, exactly⟩ answer next moved
  obtain ⟨effects, v', exit, record, books⟩ := submit_exit moved
  cases exit with
  | silent => exact ⟨nofun, nofun⟩
  | refused label rest _ quiet =>
    refine ⟨nofun, fun _ => ?_⟩
    have still : ∀ effect ∈ Effect.metric (.shareRejected label (workerLabel (d.peers x.id).worker)) ::
        Effect.shareRejected :: rest, effect.movesRecord = false := by
      rcases quiet with rfl | ⟨reason, rfl⟩ <;> simp [Effect.movesRecord]
    have same : next.shared.books = { d.shared.books with rejected := d.shared.books.rejected + 1 } := by
      rcases quiet with rfl | ⟨reason, rfl⟩ <;> exact books
    rw [same]
    exact ⟨record still, rfl, rfl, rfl, rfl, rfl⟩
  | failed _ e =>
    refine ⟨nofun, fun _ => ?_⟩
    rw [books]
    exact ⟨record (by simp [Effect.movesRecord]), rfl, rfl, rfl, rfl, rfl⟩
  | valid result credited new share credit =>
    have creditOf : d.creditOf x = some credited := by
      rw [Desk.creditOf, new, credit]
      rfl
    refine ⟨fun _ => ⟨credited, creditOf, ?_⟩, nofun⟩
    rw [books, book_valid]
    refine ⟨?_, Books.log_pending .., ?_, rfl, rfl, rfl⟩
    · obtain ⟨dropped, kept, whole, old, now⟩ := recordShare_recorded (d.peers x.id).vardiff x.env.clock.instant credited
        (some x.env.serial)
      exact ⟨dropped, kept, whole, old, by rw [record (by simp [Effect.movesRecord]), now]⟩
    · have added := exactly result new share credited creditOf
      have round : d.shared.books.round = d.shared.stats.roundWork := rfl
      simp only [Books.work, round, added, Nat.add_assoc]
  | block result credited hash height new isBlock submission => exact absurd ⟨⟨result, new, isBlock⟩, submission⟩ ordinary

/-- In every sequence of submits to sessions of either protocol, each is entered once in every ledger when it is accepted
and in none when it is rejected, exactly if none of them is a block whose inline submission succeeds and none that is
credited takes the round's work to a number that no double holds. -/
theorem ledgers_agree_iff (d : Desk) (submissions : List Submission) :
    d.Throughout Desk.Agree submissions ↔
      d.Throughout (fun d x => ¬ (d.FindsBlock x ∧ x.env.submission = .ok ()) ∧ d.AddsExactly x) submissions :=
  Desk.throughout_iff Desk.agree_iff d submissions

/-! ### Every submit is counted -/

/-- Exactly one of the two counts of the pool grew, and by one. -/
def CountedOnce (b b' : Books) : Prop :=
  (b'.accepted = b.accepted + 1 ∧ b'.rejected = b.rejected) ∨ (b'.accepted = b.accepted ∧ b'.rejected = b.rejected + 1)

/-- Of a session in any state, a submit that gets a reply is counted once as accepted or rejected, exactly unless it is
a block whose inline submission fails. -/
theorem submit_counted_iff {d next : Desk} {x : Submission} {answer : Option Bool}
    (moved : d.submit x = some (answer, next)) (replied : answer ≠ none) :
    CountedOnce d.shared.books next.shared.books ↔ ¬ (d.FindsBlock x ∧ ∃ e, x.env.submission = .error e) := by
  obtain ⟨effects, v', exit, _, books⟩ := Desk.submit_exit moved
  rw [books]
  cases exit with
  | silent => exact absurd rfl replied
  | refused label rest unseen quiet =>
    constructor
    · rintro _ ⟨⟨result, new, _⟩, _⟩
      rw [unseen] at new
      cases new
    · intro _
      right
      rcases quiet with rfl | ⟨reason, rfl⟩ <;> exact ⟨rfl, rfl⟩
  | failed result e new isBlock submission =>
    constructor
    · rintro (⟨accepted, _⟩ | ⟨_, rejected⟩)
      · exact absurd accepted (Nat.ne_of_lt (Nat.lt_succ_self _))
      · exact absurd rejected (Nat.ne_of_lt (Nat.lt_succ_self _))
    · intro ordinary
      exact absurd ⟨⟨result, new, isBlock⟩, e, submission⟩ ordinary
  | valid result credited new share =>
    constructor
    · rintro _ ⟨⟨other, found, isBlock⟩, _⟩
      obtain rfl := Option.some.inj (found.symm.trans new)
      rw [share] at isBlock
      cases isBlock
    · intro _
      left
      rw [book_valid]
      exact ⟨rfl, rfl⟩
  | block result credited hash height new isBlock submission =>
    constructor
    · rintro _ ⟨_, e, failed⟩
      rw [submission] at failed
      cases failed
    · intro _
      have counted := book_block x.env.clock d.shared.books (workerLabel (d.peers x.id).worker) hash height credited
        result.hashDifficulty x.env.serial
      exact .inl ⟨counted.1, counted.2.1⟩

/-! ### A block on the test chain -/

section
open Server

def testEnv (e : Engine) (submission : Except PoolError Unit) : Env :=
  { crates := mainnetCrates, engine := e, clock := { unix := 1700000000, instant := 0 }, submission, serial := 0 }

/-- An SV1 session of the example configuration, authorized on the engine's job. -/
def testDesk (e : Engine) : Desk where
  peers := fun _ => .sv1 (Sv1.handleAuthorize (testEnv e (.ok ()))
    (Sv1.handleSubscribe (.new exampleConfig (.new exampleConfig [0, 0, 0, 1]) 0)).miner "miner").miner []
  shared := { stats := .newWithStore none 1700000000, metrics := .start }

def testSubmission (e : Engine) (submission : Except PoolError Unit) : Submission where
  id := 0
  env := testEnv e submission
  share := .sv1 { jobId := "0000000000000001", extranonce2 := [0, 0, 0, 7], ntime := 1700000000, nonce := 0, versionBits := none }

/-- The share is a block. Accepted by the node it is credited to the round and not in the metrics; refused by it, it is
counted nowhere. -/
theorem testDesk_block : ∃ e accepted failed,
    (testDesk e).submit (testSubmission e (.ok ())) = some (some true, accepted) ∧
    (testDesk e).submit (testSubmission e (.error (.rpc .transport))) = some (some false, failed) ∧
    workerLabel ((testDesk e).peers 0).worker = "miner" ∧
    accepted.shared.books.work = 512 ∧ accepted.shared.books.acceptedTotal "miner" = 0 ∧
    failed.shared.books.accepted = 0 ∧ failed.shared.books.rejected = 0 := by
  obtain ⟨s, _, worker, counted, uncounted⟩ : ∃ s : Server testDeployment,
      Reach Server.step Always (Server.start testSettings) s ∧
      workerLabel ((testDesk s.refreshes.engine).peers 0).worker = "miner" ∧
      ((testDesk s.refreshes.engine).submit (testSubmission s.refreshes.engine (.ok ()))).any (fun (answer, next) =>
        decide (answer = some true ∧ next.shared.books.work = 512 ∧ next.shared.books.acceptedTotal "miner" = 0)) ∧
      ((testDesk s.refreshes.engine).submit (testSubmission s.refreshes.engine (.error (.rpc .transport)))).any
        (fun (answer, next) =>
          decide (answer = some false ∧ next.shared.books.accepted = 0 ∧ next.shared.books.rejected = 0)) :=
    Reach.of_run (loopRefresh true (testTemplate genesisHash "207fffff")) (by decide +kernel)
  obtain ⟨⟨_, accepted⟩, moved, facts⟩ := (Option.any_eq_true _ _).mp counted
  obtain ⟨⟨_, failed⟩, ended, others⟩ := (Option.any_eq_true _ _).mp uncounted
  obtain ⟨rfl, work, total⟩ := of_decide_eq_true facts
  obtain ⟨rfl, noneAccepted, noneRejected⟩ := of_decide_eq_true others
  exact ⟨_, accepted, failed, moved, ended, worker, work, total, noneAccepted, noneRejected⟩

theorem accepted_block_not_in_metrics : ∃ e, ¬ (testDesk e).Throughout Desk.Agree [testSubmission e (.ok ())] := by
  obtain ⟨e, accepted, _, moved, _, worker, _, total, _⟩ := testDesk_block
  refine ⟨e, fun throughout => ?_⟩
  obtain ⟨credited, _, entered⟩ := (throughout.1 _ _ moved).1 rfl
  have counted := congrFun entered.acceptedTotal "miner"
  rw [total, show (testSubmission e (.ok ())).id = 0 from rfl, worker, Metrics.increment,
    Function.update_self] at counted
  exact absurd counted (show (0 : UInt64) ≠ 0 + 1 by decide)

theorem failed_block_not_counted : ∃ e failed,
    (testDesk e).submit (testSubmission e (.error (.rpc .transport))) = some (some false, failed) ∧
      ¬ CountedOnce (testDesk e).shared.books failed.shared.books := by
  obtain ⟨e, _, failed, _, moved, _, _, _, noneAccepted, noneRejected⟩ := testDesk_block
  refine ⟨e, failed, moved, ?_⟩
  rintro (⟨accepted, _⟩ | ⟨_, rejected⟩)
  · rw [noneAccepted] at accepted
    cases accepted
  · rw [noneRejected] at rejected
    cases rejected

theorem submit_counted_iff_block : ∃ e accepted,
    (testDesk e).submit (testSubmission e (.ok ())) = some (some true, accepted) ∧
      CountedOnce (testDesk e).shared.books accepted.shared.books := by
  obtain ⟨e, accepted, _, moved, _⟩ := testDesk_block
  exact ⟨e, accepted, moved, (submit_counted_iff moved nofun).mpr (fun ⟨_, _, failed⟩ => by cases failed)⟩

end

end SoloPool
