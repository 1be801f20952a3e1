import SoloPool.Protocol.Configure
import SoloPool.Proofs.Turns

/-!
# Negotiating version rolling

What a `mining.configure` asks for against what it is granted. The handler ANDs each request with the mask the earlier
ones left and keeps the low half of the bit count, so a grant follows the request alone only while neither shows.
-/

namespace SoloPool
open Lib

/-! ### Requests -/

/-- A request for version rolling: the mask, all ones when none is sent, and the least number of bits it must keep. -/
structure VersionRequest where
  mask : UInt32
  minBitCount : Option UInt64
  deriving DecidableEq

def asksRolling (ext : Json) : Bool := decide (ext.asStr = some "version-rolling")

def requestedMask (params : Json) : Option UInt32 :=
  (((ConfigureFields.extParams params).lookup "version-rolling.mask").bind Json.asStr).bind u32FromStrRadix16

def requestedBits (params : Json) : Option UInt64 :=
  ((ConfigureFields.extParams params).lookup "version-rolling.min-bit-count").bind Json.asU64

/-- What the parameters of a `mining.configure` ask of version rolling, if they name it. -/
def versionRequest (params : Json) : Option VersionRequest :=
  if (ConfigureFields.extensions params).any asksRolling then
    some { mask := (requestedMask params).getD 0xffffffff, minBitCount := requestedBits params }
  else none

/-- The request is to be granted: the mask keeps some of the pool's bits, and as many as the miner needs. -/
def VersionRequest.Grantable (r : VersionRequest) : Prop :=
  r.mask &&& versionRollingMask ≠ 0 ∧ ∀ b ∈ r.minBitCount, b.toNat ≤ Session.countOnes (r.mask &&& versionRollingMask)

/-! ### Parsing -/

namespace ConfigureFields

/-- What of a request the fields hold once version rolling has been named, and before. -/
structure Holds (params : Json) (named : Bool) (fields : ConfigureFields) : Prop where
  versionRolling : fields.versionRolling = named
  mask : fields.versionRollingMask = if named then requestedMask params else none
  minBitCount : fields.versionRollingMinBitCount = if named then (requestedBits params).map UInt64.toUInt32 else none

theorem holds_default (params : Json) : Holds params false default := ⟨rfl, rfl, rfl⟩

theorem Holds.addVersionRolling {params : Json} {named : Bool} {fields : ConfigureFields} (holds : Holds params named fields) :
    Holds params true (fields.addVersionRolling (extParams params)) := by
  unfold ConfigureFields.addVersionRolling
  -- A value that is absent, or of the wrong kind, leaves what an earlier mention left: nothing.
  have maskLeft : (((extParams params).lookup "version-rolling.mask").bind Json.asStr) = none →
      fields.versionRollingMask = none := by
    intro absent
    rw [holds.mask, requestedMask, absent]
    cases named <;> rfl
  have bitsLeft : (((extParams params).lookup "version-rolling.min-bit-count").bind Json.asU64) = none →
      fields.versionRollingMinBitCount = none := by
    intro absent
    rw [holds.minBitCount, requestedBits, absent]
    cases named <;> rfl
  cases mask : ((extParams params).lookup "version-rolling.mask").bind Json.asStr with
  | none =>
    cases bits : ((extParams params).lookup "version-rolling.min-bit-count").bind Json.asU64 with
    | none => exact ⟨rfl, by simp [requestedMask, mask, maskLeft mask], by simp [requestedBits, bits, bitsLeft bits]⟩
    | some minBits => exact ⟨rfl, by simp [requestedMask, mask, maskLeft mask], by simp [requestedBits, bits]⟩
  | some maskStr =>
    cases bits : ((extParams params).lookup "version-rolling.min-bit-count").bind Json.asU64 with
    | none => exact ⟨rfl, by simp [requestedMask, mask], by simp [requestedBits, bits, bitsLeft bits]⟩
    | some minBits => exact ⟨rfl, by simp [requestedMask, mask], by simp [requestedBits, bits]⟩

theorem Holds.addExtension {params : Json} {named : Bool} {fields : ConfigureFields} (holds : Holds params named fields)
    (ext : Json) : Holds params (named || asksRolling ext) (addExtension (extParams params) fields ext) := by
  unfold ConfigureFields.addExtension
  split
  · rename_i rolling
    rw [asksRolling, decide_eq_true rolling, Bool.or_true]
    exact holds.addVersionRolling
  · rename_i other
    rw [asksRolling, other, decide_eq_false (by decide), Bool.or_false]
    exact ⟨holds.versionRolling, holds.mask, holds.minBitCount⟩
  · rename_i other
    rw [asksRolling, other, decide_eq_false (by decide), Bool.or_false]
    exact ⟨holds.versionRolling, holds.mask, holds.minBitCount⟩
  · rename_i other _ _
    rw [asksRolling, decide_eq_false other, Bool.or_false]
    exact holds

theorem holds_parse (params : Json) : Holds params ((extensions params).any asksRolling) (parse params) := by
  suffices walk : ∀ (exts : List Json) (named : Bool) (fields : ConfigureFields), Holds params named fields →
      Holds params (named || exts.any asksRolling) (exts.foldl (ConfigureFields.addExtension (extParams params)) fields) by
    exact walk (extensions params) false default (holds_default params)
  intro exts
  induction exts with
  | nil =>
    intro named fields holds
    rwa [List.any_nil, Bool.or_false]
  | cons ext exts ih =>
    intro named fields holds
    rw [List.any_cons, ← Bool.or_assoc]
    exact ih _ _ (holds.addExtension ext)

end ConfigureFields

/-! ### The mask a history leaves -/

/-- The bits of the pool's mask that every earlier request for version rolling let through. -/
def allowedBits (history : List Json) : UInt32 :=
  history.foldl (fun bits params => ((versionRequest params).map (bits &&& ·.mask)).getD bits) versionRollingMask

theorem allowedBits_concat (history : List Json) (params : Json) :
    allowedBits (history ++ [params]) =
      ((versionRequest params).map (allowedBits history &&& ·.mask)).getD (allowedBits history) := by
  unfold allowedBits
  rw [List.foldl_append]
  rfl

/-- No request adds a bit to the pool's. -/
theorem allowedBits_and (history : List Json) : versionRollingMask &&& allowedBits history = allowedBits history := by
  induction history using List.reverseRecOn with
  | nil => exact UInt32.and_self
  | append_singleton history params ih =>
    rw [allowedBits_concat]
    cases versionRequest params with
    | none => exact ih
    | some r =>
      rw [Option.map_some, Option.getD_some, ← UInt32.and_assoc, ih]

namespace Session

/-- The session after a request for version rolling. -/
def negotiate (s : Session) (r : VersionRequest) : Session :=
  let negotiated := r.mask &&& s.versionRollingMask
  { s with
    versionRollingEnabled :=
      (r.minBitCount.map fun b => decide (countOnes negotiated ≥ b.toUInt32.toNat)).getD true && decide (negotiated ≠ 0)
    versionRollingMask := negotiated
    versionRollingMinBitCount := r.minBitCount.map UInt64.toUInt32 }

theorem handleConfigure_eq (s : Session) (params : Json) :
    (s.handleConfigure (ConfigureFields.parse params).params).2 = ((versionRequest params).map s.negotiate).getD s := by
  obtain ⟨named, mask, bits⟩ := ConfigureFields.holds_parse params
  unfold versionRequest handleConfigure ConfigureFields.params
  rw [named, mask, bits]
  cases (ConfigureFields.extensions params).any asksRolling with
  | false => rfl
  | true =>
    have wanted : ((requestedMask params).map (· &&& s.versionRollingMask)).getD s.versionRollingMask =
        (requestedMask params).getD 0xffffffff &&& s.versionRollingMask := by
      cases requestedMask params with
      | none => exact (UInt32.neg_one_and (a := s.versionRollingMask)).symm
      | some m => rfl
    simp only [if_pos, wanted, Option.map_some, Option.getD_some, negotiate, Option.map_map]
    rfl

end Session

/-! ### Whole sessions -/

/-- The line that a handled `mining.configure` is. -/
def Input.configures : Input → Bool
  | .line true (.message (.configure _)) => true
  | _ => false

/-- An SV1 session after any turns, with the parameters of the `mining.configure` lines it has handled. -/
inductive Negotiating (cfg : Config) : Miner Session → List Json → Prop
  | start (m : Miner Session) (extranonce1 : Bytes) (fresh : m.session = .new cfg extranonce1) : Negotiating cfg m []
  | configure {m : Miner Session} {history : List Json} (params : Json) (before : Negotiating cfg m history) :
      Negotiating cfg (Sv1.handleConfigure m (ConfigureFields.parse params).params).miner (history ++ [params])
  | other {m m' : Miner Session} {history : List Json} {env : Env} {counters counters' : Sv2.Counters} {input : Input}
      {written written' : List Sv1.Line} {turn : Turn} (before : Negotiating cfg m history)
      (handled : (Peer.sv1 m written).handle env counters input = some (.ok (turn, counters')))
      (isOther : input.configures = false) (after : turn.peer = .sv1 m' written') : Negotiating cfg m' history

/-- The part of a session that a negotiation sets. -/
def Session.rolling (s : Session) : Bool × UInt32 := (s.versionRollingEnabled, s.versionRollingMask)

theorem handleSubmit_rolling (env : Env) (m : Miner Session) (params : SubmitParams) :
    (Sv1.handleSubmit env m params).miner.session.rolling = m.session.rolling := by
  obtain ⟨guard, shareSet, after⟩ := m.session.handleSubmit_frame env.crates env.engine params
  unfold Sv1.handleSubmit
  dsimp only
  split
  · rw [Miner.replies, after]
    rfl
  · split <;> (simp only [Miner.replies, Miner.closes, after]; rfl)
  · rw [Miner.replies, after]
    rfl
  · split
    · rw [Miner.closes, after]
      rfl
    · rename_i settled ends
      have kept := (settle_turned ends).1
      rw [after] at kept
      split
      · rw [Miner.closes, kept]
        rfl
      · rw [Miner.replies, kept]
        rfl

theorem handleLine_rolling {env : Env} {token : Bool} {m : Miner Session} {line : Sv1.ClientLine}
    {handled : Handled Session Sv1.Line} (isOther : (Input.line token line).configures = false)
    (ends : Sv1.handleLine env token m line = .ok handled) : handled.miner.session.rolling = m.session.rolling := by
  cases token with
  | false =>
    cases line with
    | blank | malformed | invalid e | message message =>
      obtain rfl := Outcome.ok.inj ends
      rfl
  | true =>
    cases line with
    | blank | malformed | invalid e =>
      obtain rfl := Outcome.ok.inj ends
      rfl
    | message message =>
      cases message with
      | configure params => cases isOther
      | subscribe | unknown method =>
        obtain rfl := Outcome.ok.inj ends
        rfl
      | authorize name =>
        obtain rfl := Outcome.ok.inj ends
        unfold Sv1.handleAuthorize
        split
        · rfl
        · split
          · rfl
          · split
            · rfl
            · obtain ⟨-, result, eq, -⟩ | ⟨-, -, guard, result, eq, -⟩ :=
                m.session.handleAuthorize_cases env.engine.currentJob name <;> simp only [eq] <;> rfl
      | submit params =>
        obtain rfl := Outcome.ok.inj ends
        exact handleSubmit_rolling env m params
      | suggestDifficulty difficulty =>
        obtain ⟨applied, -, ends⟩ := Outcome.bind_ok.mp ends
        obtain rfl := Outcome.ok.inj ends
        rfl

theorem handle_rolling {m : Miner Session} {env : Env} {counters counters' : Sv2.Counters} {input : Input}
    {written : List Sv1.Line} {turn : Turn}
    (handled : (Peer.sv1 m written).handle env counters input = some (.ok (turn, counters')))
    (isOther : input.configures = false) :
    ∃ m' written', turn.peer = .sv1 m' written' ∧ m'.session.rolling = m.session.rolling := by
  cases input with
  | line token line =>
    obtain ⟨served, ends, returned⟩ := Outcome.bind_ok.mp (Option.some.inj handled)
    obtain ⟨rfl, -⟩ := Prod.mk.inj (Outcome.ok.inj returned)
    exact ⟨_, _, rfl, handleLine_rolling isOther ends⟩
  | frame token frame => cases handled
  | cacheJob current =>
    obtain ⟨rfl, -⟩ := Prod.mk.inj (Outcome.ok.inj (Option.some.inj handled))
    cases current <;> exact ⟨_, _, rfl, rfl⟩
  | broadcast b =>
    obtain ⟨rfl, -⟩ := Prod.mk.inj (Outcome.ok.inj (Option.some.inj handled))
    refine ⟨_, _, rfl, ?_⟩
    unfold Sv1.handleBroadcast Session.handleBroadcast
    cases b.clean <;> rfl
  | retarget retarget =>
    simp only [Peer.handle] at handled
    split at handled
    · obtain ⟨served, ends, returned⟩ := Outcome.bind_ok.mp (Option.some.inj handled)
      obtain ⟨rfl, -⟩ := Prod.mk.inj (Outcome.ok.inj returned)
      refine ⟨_, _, rfl, ?_⟩
      unfold Sv1.handleRetarget at ends
      obtain ⟨⟨change, vardiff⟩, -, ends⟩ := Outcome.bind_ok.mp ends
      cases change <;> (obtain rfl := Outcome.ok.inj ends; rfl)
    · cases handled

/-- Whatever else the session does, its mask is what the requests so far have left of the pool's. -/
theorem Negotiating.mask {cfg : Config} {m : Miner Session} {history : List Json} (reached : Negotiating cfg m history) :
    m.session.versionRollingMask = allowedBits history := by
  induction reached with
  | start m extranonce1 fresh =>
    rw [fresh]
    rfl
  | @configure m history params before ih =>
    rw [allowedBits_concat]
    change (m.session.handleConfigure (ConfigureFields.parse params).params).2.versionRollingMask = _
    rw [Session.handleConfigure_eq]
    cases versionRequest params with
    | none => exact ih
    | some r =>
      rw [Option.map_some, Option.map_some, Option.getD_some, Option.getD_some, ← ih]
      exact UInt32.and_comm r.mask _
  | other before handled isOther after ih =>
    obtain ⟨m', written', peer, same⟩ := handle_rolling handled isOther
    rw [after] at peer
    obtain ⟨rfl, -⟩ := Peer.sv1.inj peer
    exact (Prod.mk.inj same).2.trans ih

/-! ### Answers -/

/-- The grant follows the request: it is given exactly when the request is to be granted, with the requested part of the
pool's mask, and that is the mask the session's shares are validated with. -/
def FollowsRequest (m : Miner Session) (params : Json) (r : VersionRequest) : Prop :=
  ((∃ mask, (Sv1.handleConfigure m (ConfigureFields.parse params).params).sent = [.configured true mask m.difficulty]) ↔
    r.Grantable) ∧
  (r.Grantable →
    (Sv1.handleConfigure m (ConfigureFields.parse params).params).sent =
      [.configured true (r.mask &&& versionRollingMask) m.difficulty] ∧
    ∀ submit, ((Sv1.handleConfigure m (ConfigureFields.parse params).params).miner.session.shareParams
      submit).versionRollingMask = some (r.mask &&& versionRollingMask))

/-- Earlier requests leave every bit of a request that is to be granted; of one with too high a bit count they leave none, or
fewer than the low half of that count. -/
def Undisturbed (history : List Json) (r : VersionRequest) : Prop :=
  (r.Grantable → r.mask &&& allowedBits history = r.mask &&& versionRollingMask) ∧
  (¬ r.Grantable → ∀ b ∈ r.minBitCount, r.mask &&& allowedBits history = 0 ∨
    Session.countOnes (r.mask &&& allowedBits history) < b.toNat % 2 ^ 32)

section Answer

variable {cfg : Config} {m : Miner Session} {history : List Json} {params : Json} {r : VersionRequest}

/-- What the handler enables: the bits left are enough for the low half of the count. -/
theorem negotiate_enabled_iff (s : Session) (r : VersionRequest) :
    (s.negotiate r).versionRollingEnabled = true ↔ r.mask &&& s.versionRollingMask ≠ 0 ∧
      ∀ b ∈ r.minBitCount, b.toNat % 2 ^ 32 ≤ Session.countOnes (r.mask &&& s.versionRollingMask) := by
  unfold Session.negotiate
  cases r.minBitCount with
  | none => simp
  | some b =>
    simp only [Option.map_some, Option.getD_some, Bool.and_eq_true, decide_eq_true_eq, UInt64.toNat_toUInt32,
      Option.mem_some_iff, forall_eq', ge_iff_le]
    exact and_comm

theorem not_grantable_mask (r : VersionRequest) (unlimited : r.minBitCount = none) (refused : ¬ r.Grantable)
    (history : List Json) : r.mask &&& allowedBits history = 0 := by
  have none : r.mask &&& versionRollingMask = 0 := by
    by_contra some
    exact refused ⟨some, by simp [unlimited]⟩
  rw [← allowedBits_and, ← UInt32.and_assoc, none, UInt32.zero_and]

theorem handleConfigure_answer (reached : Negotiating cfg m history) (asks : versionRequest params = some r) :
    (Sv1.handleConfigure m (ConfigureFields.parse params).params).miner.session = m.session.negotiate r ∧
      (Sv1.handleConfigure m (ConfigureFields.parse params).params).sent =
        [.configured (m.session.negotiate r).versionRollingEnabled (r.mask &&& allowedBits history) m.difficulty] := by
  have session : (m.session.handleConfigure (ConfigureFields.parse params).params).2 = m.session.negotiate r := by
    rw [Session.handleConfigure_eq, asks]
    rfl
  refine ⟨session, ?_⟩
  unfold Sv1.handleConfigure
  dsimp only [Miner.replies]
  rw [session, ← reached.mask]
  rfl

/-- In every SV1 session, after every history of negotiations: the answer to a request follows the request alone exactly when
the earlier requests and the width of the bit count do not disturb it. -/
theorem configure_follows_iff (reached : Negotiating cfg m history) (asks : versionRequest params = some r) :
    FollowsRequest m params r ↔ Undisturbed history r := by
  obtain ⟨session, sent⟩ := handleConfigure_answer reached asks
  have enabled := negotiate_enabled_iff m.session r
  rw [reached.mask] at enabled
  have shares : ∀ submit, ((m.session.negotiate r).shareParams submit).versionRollingMask =
      if (m.session.negotiate r).versionRollingEnabled then some (r.mask &&& allowedBits history) else none := by
    intro submit
    rw [← reached.mask]
    rfl
  have granted : (∃ mask, [Sv1.Line.configured (m.session.negotiate r).versionRollingEnabled (r.mask &&& allowedBits history)
      m.difficulty] = [.configured true mask m.difficulty]) ↔ (m.session.negotiate r).versionRollingEnabled = true := by
    constructor
    · rintro ⟨mask, same⟩
      exact (Sv1.Line.configured.inj (List.cons.inj same).1).1
    · intro on
      exact ⟨_, by rw [on]⟩
  unfold FollowsRequest
  rw [session, sent, granted, enabled]
  simp only [shares]
  constructor
  · rintro ⟨exact, same⟩
    refine ⟨fun grantable => ?_, fun refused b limit => ?_⟩
    · exact (Sv1.Line.configured.inj (List.cons.inj (same grantable).1).1).2.1
    · by_contra left
      rw [not_or, Nat.not_lt] at left
      refine refused (exact.mp ⟨left.1, fun b' limit' => ?_⟩)
      rw [Option.mem_unique limit' limit]
      exact left.2
  · rintro ⟨kept, few⟩
    have on : r.Grantable → (m.session.negotiate r).versionRollingEnabled = true := by
      intro grantable
      rw [enabled, kept grantable]
      exact ⟨grantable.1, fun b limit => (Nat.mod_le _ _).trans (grantable.2 b limit)⟩
    refine ⟨⟨fun left => ?_, fun grantable => enabled.mp (on grantable)⟩, fun grantable => ?_⟩
    · by_contra refused
      cases limit : r.minBitCount with
      | none => exact left.1 (not_grantable_mask r limit refused history)
      | some b =>
        obtain nothing | fewer := few refused b limit
        · exact left.1 nothing
        · exact absurd (left.2 b limit) (Nat.not_le.mpr fewer)
    · simp only [on grantable, kept grantable, if_true]
      exact ⟨trivial, fun _ => trivial⟩

end Answer

/-- The parameters of a request for version rolling with the given values. -/
def rollingParams (values : List (String × Json)) : Json := .array [.array [.string "version-rolling"], .object values]

def freshMiner : Miner Session where
  session := .new exampleConfig [0, 0, 0, 1]
  difficulty := 4096
  vardiff := .new exampleConfig.vardiff 4096 0
  sharesAccepted := 0
  sharesRejected := 0

def narrowParams : Json := rollingParams [("version-rolling.mask", .string "00002000")]

/-- The session after a request that leaves one bit. -/
def narrowed : Miner Session := (Sv1.handleConfigure freshMiner (ConfigureFields.parse narrowParams).params).miner

/-- A later request for the whole mask gets what an earlier one left, and a count of 2^32 is taken for none. -/
theorem later_request_narrowed :
    (Negotiating exampleConfig narrowed [narrowParams] ∧ versionRequest (rollingParams []) = some ⟨0xffffffff, none⟩ ∧
      ¬ FollowsRequest narrowed (rollingParams []) ⟨0xffffffff, none⟩) ∧
    (versionRequest (rollingParams [("version-rolling.min-bit-count", .number (.posInt 0x100000000))]) =
        some ⟨0xffffffff, some 0x100000000⟩ ∧
      ¬ FollowsRequest freshMiner (rollingParams [("version-rolling.min-bit-count", .number (.posInt 0x100000000))])
        ⟨0xffffffff, some 0x100000000⟩) := by
  refine ⟨⟨.configure narrowParams (.start freshMiner [0, 0, 0, 1] rfl), by decide, fun follows => ?_⟩, by decide,
    fun follows => ?_⟩
  · have grantable : VersionRequest.Grantable ⟨0xffffffff, none⟩ := ⟨by decide, by simp⟩
    have sent := (follows.2 grantable).1
    have mask := (Sv1.Line.configured.inj (List.cons.inj sent).1).2.1
    revert mask
    decide
  · have granted := follows.1.mp ⟨0x1fffe000, by rfl⟩
    have enough := granted.2 0x100000000 rfl
    revert enough
    decide

def oneBitParams : Json :=
  rollingParams [("version-rolling.mask", .string "00002000"), ("version-rolling.min-bit-count", .number (.posInt 1))]

/-- A request for the bit that an earlier one has left gets it. -/
theorem configure_follows_narrowed :
    Negotiating exampleConfig narrowed [narrowParams] ∧ versionRequest oneBitParams = some ⟨0x2000, some 1⟩ ∧
      FollowsRequest narrowed oneBitParams ⟨0x2000, some 1⟩ := by
  have reached : Negotiating exampleConfig narrowed [narrowParams] := .configure narrowParams (.start freshMiner [0, 0, 0, 1] rfl)
  have grantable : VersionRequest.Grantable ⟨0x2000, some 1⟩ := ⟨by decide, by rintro _ ⟨⟩; decide⟩
  exact ⟨reached, by decide,
    (configure_follows_iff reached (by decide)).mpr ⟨fun _ => by decide, fun refused => absurd grantable refused⟩⟩

end SoloPool
