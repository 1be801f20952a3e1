import SoloPool.Proofs.Credit

/-!
# Version rolling

The mask of an SV1 session only ever narrows from `0x1fffe000`, and an SV2 submit is cut to that mask, so the version of
an accepted header differs from its job's only inside it.
-/

namespace SoloPool
open Lib

/-! ### Masks -/

def InMask (mask : UInt32) : Prop := mask &&& ~~~versionRollingMask = 0

theorem inMask_versionRollingMask : InMask versionRollingMask := by
  unfold InMask
  decide

theorem inMask_and (wanted : UInt32) {mask : UInt32} (inside : InMask mask) : InMask (wanted &&& mask) := by
  unfold InMask at inside ⊢
  rw [UInt32.and_assoc, inside, UInt32.and_zero]

/-- Bits taken from inside a mask change nothing outside a wider one. -/
theorem rolled_outside (base bits : UInt32) {mask wide : UInt32} (inside : mask &&& ~~~wide = 0) :
    ((base &&& ~~~mask) ||| (bits &&& mask)) &&& ~~~wide = base &&& ~~~wide := by
  apply UInt32.toBitVec_inj.mp
  apply BitVec.eq_of_getLsbD_eq
  intro i small
  have bit : (mask.toBitVec.getLsbD i && !wide.toBitVec.getLsbD i) = false := by
    have := congrArg (fun v : UInt32 => v.toBitVec.getLsbD i) inside
    simpa [small] using this
  simp only [UInt32.toBitVec_and, UInt32.toBitVec_or, UInt32.toBitVec_not, BitVec.getLsbD_and, BitVec.getLsbD_or,
    BitVec.getLsbD_not, small, decide_true, Bool.true_and]
  revert bit
  cases mask.toBitVec.getLsbD i <;> cases wide.toBitVec.getLsbD i <;> simp

/-! ### The version of a header -/

def headerVersion (header : Octets 80) : UInt32 := UInt32.ofNat (leNat (header.toList.take 4))

theorem headerVersion_headerBytes (version : UInt32) (prev root : Hash) (ntime bits nonce : UInt32) :
    headerVersion (headerBytes version prev root ntime bits nonce) = version := by
  unfold headerVersion headerBytes
  simp only [List.append_assoc]
  rw [List.take_left' (length_leBytes _ _), leNat_leBytes, Nat.mod_eq_of_lt (by exact version.toNat_lt), UInt32.ofNat_toNat]

theorem buildHeader_version {version : UInt32} {prevHash bits : String} {root : Hash} {ntime nonce : UInt32}
    {header : Octets 80} (built : buildHeader version prevHash root ntime bits nonce = .ok header) :
    headerVersion header = version := by
  unfold buildHeader at built
  dsimp only at built
  split at built
  · rw [pure_bind] at built
    obtain ⟨prev, _, built⟩ := Outcome.bind_ok.mp built
    obtain ⟨compact, _, built⟩ := Outcome.bind_ok.mp built
    obtain rfl := Outcome.ok.inj built
    exact headerVersion_headerBytes _ _ _ _ _ _
  · cases built

theorem reconstruct_version {c : Crates} {params : ShareParams} {job : StratumJob} {extranonce1 : Bytes}
    {work : Bytes × Octets 80} (rebuilt : reconstruct c params job extranonce1 = .ok work) :
    headerVersion work.2 = rolledVersion job.version params := by
  unfold reconstruct at rebuilt
  obtain ⟨coinbase, _, rebuilt⟩ := Outcome.bind_ok.mp rebuilt
  obtain ⟨version, resolved, rebuilt⟩ := Outcome.bind_ok.mp rebuilt
  obtain ⟨header, built, rebuilt⟩ := Outcome.bind_ok.mp rebuilt
  obtain rfl := Outcome.ok.inj rebuilt
  rw [buildHeader_version built]
  by_cases inside : VersionInMask params
  · exact Outcome.ok.inj (resolved.symm.trans ((resolveVersion_eq job.version params).1 inside))
  · obtain ⟨detail, refused⟩ := (resolveVersion_eq job.version params).2 inside
    cases resolved.symm.trans refused

theorem rolledVersion_outside (base : UInt32) {params : ShareParams}
    (inside : InMask (params.versionRollingMask.getD versionRollingMask)) :
    rolledVersion base params &&& ~~~versionRollingMask = base &&& ~~~versionRollingMask := by
  unfold rolledVersion
  cases params.versionBits with
  | none => rfl
  | some bits => exact rolled_outside base bits inside

/-- An accepted share is judged on the header that its parameters rebuild. -/
theorem validated_judged {c : Crates} {job : StratumJob} {params : ShareParams} {entry : JobEntry} {extranonce1 : Bytes}
    {difficulty : UInt64} {result : ShareResult}
    (valid : validateShareNoDedup c params job entry extranonce1 difficulty = .ok result) :
    ∃ coinbase header, reconstruct c params job extranonce1 = .ok (coinbase, header) ∧
      judge c job coinbase header difficulty = .ok result := by
  rw [validateShareNoDedup_eq] at valid
  split at valid
  · cases valid
  · obtain ⟨_, _, valid⟩ := Outcome.bind_ok.mp valid
    obtain ⟨⟨coinbase, header⟩, rebuilt, judged⟩ := Outcome.bind_ok.mp valid
    exact ⟨coinbase, header, rebuilt, judged⟩

/-! ### The mask of a session -/

def Client.MaskKept : Client → Prop
  | .sv1 s => InMask s.versionRollingMask
  | .sv2 _ => True

def Client.rolls : Client → Bool
  | .sv1 s => s.versionRollingEnabled
  | .sv2 _ => true

theorem Session.handleConfigure_mask {s : Session} (inside : InMask s.versionRollingMask) (params : ConfigureParams) :
    InMask (s.handleConfigure params).2.versionRollingMask := by
  unfold handleConfigure
  dsimp only
  split
  · cases params.versionRollingMask with
    | none => exact inside
    | some wanted => exact inMask_and wanted inside
  · exact inside

theorem Client.handle_maskKept {c : Crates} {e : Engine} {counters : Sv2.Counters} {client : Client} {request : Request}
    {served : Served} (kept : client.MaskKept) (handled : client.handle c e counters request = some served) :
    served.client.MaskKept := by
  cases client with
  | sv1 s =>
    cases request with
    | configure params =>
      obtain rfl := Option.some.inj handled
      exact s.handleConfigure_mask kept params
    | subscribe =>
      obtain rfl := Option.some.inj handled
      exact kept
    | authorize name =>
      simp only [handle] at handled
      obtain rfl := Option.some.inj handled
      rcases s.handleAuthorize_cases e.currentJob name with ⟨_, _, eq, _⟩ | ⟨_, _, _, _, eq, _⟩ <;> rw [eq] <;> exact kept
    | submit params =>
      obtain ⟨guard, shareSet, after⟩ := s.handleSubmit_frame c e params
      simp only [handle] at handled
      obtain rfl := Option.some.inj handled
      rw [after]
      exact kept
    | _ => cases handled
  | sv2 s =>
    cases request with
    | setupConnection | openExtended | submitExtended =>
      obtain rfl := Option.some.inj handled
      trivial
    | _ => cases handled

theorem Client.handleBroadcast_maskKept {counters : Sv2.Counters} {client : Client} (kept : client.MaskKept)
    (b : JobBroadcast) : (client.handleBroadcast counters b).client.MaskKept := by
  cases client with
  | sv1 s =>
    simp only [handleBroadcast, Session.handleBroadcast_eq]
    exact kept
  | sv2 s => trivial

/-- The bits a submit may roll are those of the session's mask, and there are none before rolling is enabled. -/
theorem Client.submission_version {e : Engine} {client : Client} {request : Request} {params : ShareParams}
    {job : StratumJob} (kept : client.MaskKept) (submitted : client.submission e request = some (params, job)) :
    rolledVersion job.version params &&& ~~~versionRollingMask = job.version &&& ~~~versionRollingMask ∧
      (client.rolls = false → rolledVersion job.version params = job.version) := by
  cases client with
  | sv1 s =>
    cases request with
    | submit submit =>
      obtain ⟨entry, _, same⟩ := Option.map_eq_some_iff.mp submitted
      obtain ⟨rfl, rfl⟩ := Prod.mk.inj same
      constructor
      · apply rolledVersion_outside
        unfold Session.shareParams
        cases s.versionRollingEnabled
        · exact inMask_versionRollingMask
        · exact kept
      · intro (off : s.versionRollingEnabled = false)
        simp only [rolledVersion, Session.shareParams, off]
        rfl
    | _ => cases submitted
  | sv2 s =>
    cases request with
    | submitExtended submit =>
      obtain ⟨entry, _, same⟩ := Option.map_eq_some_iff.mp submitted
      obtain ⟨rfl, rfl⟩ := Prod.mk.inj same
      exact ⟨rolledVersion_outside _ inMask_versionRollingMask, nofun⟩
    | _ => cases submitted

/-! ### Accepted headers -/

namespace Server

variable {d : Deployment} {s : Server d} {settings : RuntimeSettings} {i : Nat} {conn : Connection}

theorem reach_maskKept (reached : Reach step Always (start settings) s) (live : s.connections i = some conn) :
    conn.client.MaskKept := by
  refine reach_connection i (fun _ conn => conn.client.MaskKept) ?_ ?_ ?_ ?_ ?_ ?_ ?_ reached conn live
  · intro s t conn _ _ kept
    exact kept
  · intro s a t conn _ _ _ kept _ _
    rw [enqueue_client]
    exact kept
  · intro s sv2 _
    cases sv2
    · exact inMask_versionRollingMask
    · trivial
  · intro s conn _ kept
    exact kept
  · intro s conn _ _ kept
    revert kept
    cases conn.client <;> cases s.refreshes.engine.currentJob <;> exact id
  · intro s conn b rest _ _ _ _ _ kept _
    exact Client.handleBroadcast_maskKept kept b
  · intro s conn request served _ _ _ _ kept handled _
    exact Client.handle_maskKept kept handled

/-- At every point of every run a session's mask lies inside `0x1fffe000`, and a share or block it then credits has the
job's version outside that mask, and the job's version itself while rolling is not enabled. -/
theorem versions_kept (reached : Reach step Always (start settings) s) (live : s.connections i = some conn) :
    (∀ session, conn.client = .sv1 session → session.versionRollingMask &&& ~~~versionRollingMask = 0) ∧
    ∀ request served credit, conn.client.handle d.crates s.refreshes.engine s.counters request = some served →
      served.credit = some credit →
      ∃ coinbase header difficulty,
        reconstruct d.crates credit.params credit.job credit.extranonce1 = .ok (coinbase, header) ∧
        judge d.crates credit.job coinbase header difficulty = .ok credit.result ∧
        headerVersion header &&& ~~~versionRollingMask = credit.job.version &&& ~~~versionRollingMask ∧
        (∀ session, conn.client = .sv1 session → session.versionRollingEnabled = false →
          headerVersion header = credit.job.version) := by
  have kept := reach_maskKept reached live
  constructor
  · intro session sv1
    rw [sv1] at kept
    exact kept
  · intro request served credit handled credited
    have spec := Client.handle_spec (reach_wellFormed reached live) handled
    rcases spec.shares with ⟨none, _⟩ | ⟨_, entry, params, difficulty, result, _, submitted, valid, _, credit', _⟩
    · rw [none] at credited
      cases credited
    · rw [credit'] at credited
      obtain rfl := Option.some.inj credited
      obtain ⟨coinbase, header, rebuilt, judged⟩ := validated_judged valid
      obtain ⟨outside, unrolled⟩ := Client.submission_version kept submitted
      have version : headerVersion header = rolledVersion entry.job.version params := reconstruct_version rebuilt
      refine ⟨coinbase, header, difficulty, rebuilt, judged, by rw [version, outside], ?_⟩
      intro session sv1 off
      rw [version]
      apply unrolled
      rw [sv1]
      exact off

def configures (id : Nat) (mask : UInt32) : Action :=
  .request id (.configure { versionRolling := true, versionRollingMask := some mask, versionRollingMinBitCount := none })

def rolls (jobId : String) (versionBits : UInt32) : Request :=
  .submit { jobId, extranonce2 := [0, 0, 0, 7], ntime := 1700000000, nonce := 0, versionBits := some versionBits }

theorem versions_kept_rolled :
    ∃ s : Server testDeployment, Reach step Always (start testSettings) s ∧
      ∃ conn, s.connections 0 = some conn ∧
        ∃ served credit, conn.client.handle mainnetCrates s.refreshes.engine s.counters
            (rolls "0000000000000001" 0x00002000) = some served ∧ served.credit = some credit ∧
          ∃ coinbase header, reconstruct mainnetCrates credit.params credit.job credit.extranonce1 = .ok (coinbase, header) ∧
            headerVersion header &&& ~~~versionRollingMask = credit.job.version &&& ~~~versionRollingMask := by
  obtain ⟨s, reached, conn, live, served, handled, some⟩ : ∃ s : Server testDeployment,
      Reach step Always (start testSettings) s ∧ ∃ conn ∈ s.connections 0,
        ∃ served ∈ conn.client.handle mainnetCrates s.refreshes.engine s.counters (rolls "0000000000000001" 0x00002000),
          served.credit.isSome :=
    Reach.of_run (loopRefresh true (testTemplate genesisHash "207fffff") ++ joins 0 false ++
      [configures 0 0xffffffff, configures 0 0x0000e001] ++ authorizes 0) (by decide +kernel)
  obtain ⟨credit, credited⟩ := Option.isSome_iff_exists.mp some
  obtain ⟨coinbase, header, _, rebuilt, _, outside, _⟩ := (versions_kept reached live).2 _ served credit handled credited
  exact ⟨s, reached, conn, live, served, credit, handled, credited, coinbase, header, rebuilt, outside⟩

end Server

end SoloPool
