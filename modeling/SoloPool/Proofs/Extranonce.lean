import SoloPool.Bitcoin.Crates
import SoloPool.Proofs.Config
import SoloPool.Proofs.Server
import SoloPool.Proofs.Template

/-!
# Whose work is disjoint

Every session's part of the extranonce is cut from one draw of the process-wide counter, to a length that an SV2 device
chooses. Whether two live sessions can ever assemble the same coinbase is decided by the leading bytes that their two
cuts have in common.
-/

namespace SoloPool
open Lib

@[simp] theorem length_generateExtranonce1 (counter : UInt64) (size : Nat) :
    (generateExtranonce1 counter size).length = size := by
  unfold generateExtranonce1
  dsimp only
  split
  · rw [List.length_drop, length_beBytes]
    omega
  · rw [List.length_append, List.length_replicate, length_beBytes]
    omega

theorem beNat_generateExtranonce1 (counter : UInt64) (size : Nat) :
    beNat (generateExtranonce1 counter size) = counter.toNat % 256 ^ size := by
  have small : counter.toNat < 256 ^ 8 := counter.toNat_lt
  unfold generateExtranonce1
  dsimp only
  split
  · rename_i short
    rw [beNat_drop, beNat_beBytes, length_beBytes, Nat.mod_eq_of_lt small, Nat.sub_sub_self short]
  · rename_i long
    have wide : 256 ^ 8 ≤ 256 ^ size := Nat.pow_le_pow_right (by decide) (by omega)
    rw [beNat_append, beNat_replicate_zero, Nat.zero_mul, Nat.zero_add, beNat_beBytes, Nat.mod_eq_of_lt small,
      Nat.mod_eq_of_lt (by omega)]

namespace Server

variable {d : Deployment} {s t : Server d} {settings : RuntimeSettings}

def counterAt (drawn : Nat) : UInt64 := UInt64.ofNat drawn

/-- The leading bytes that two sessions' parts of the extranonce have in common differ. -/
def Apart (a b : Connection) : Prop :=
  (counterAt a.drawn).toNat % 256 ^ a.client.extranonce.length /
      256 ^ (a.client.extranonce.length - b.client.extranonce.length) ≠
    (counterAt b.drawn).toNat % 256 ^ b.client.extranonce.length /
      256 ^ (b.client.extranonce.length - a.client.extranonce.length)

/-- The session's part is cut from its draw, and leaves the miner's. -/
structure Cut (cfg : Config) (conn : Connection) : Prop where
  wellFormed : conn.client.WellFormed cfg
  inside : conn.client.granted ≤ cfg.pool.extranonce1Size + cfg.pool.extranonce2Size
  cut : conn.client.extranonce = generateExtranonce1 (counterAt conn.drawn)
    (cfg.pool.extranonce1Size + cfg.pool.extranonce2Size - conn.client.granted)

theorem Cut.width {cfg : Config} {conn : Connection} (cut : Cut cfg conn) :
    conn.client.extranonce.length + conn.client.granted = cfg.pool.extranonce1Size + cfg.pool.extranonce2Size := by
  have inside := cut.inside
  rw [cut.cut, length_generateExtranonce1]
  omega

theorem Cut.value {cfg : Config} {conn : Connection} (cut : Cut cfg conn) :
    beNat conn.client.extranonce = (counterAt conn.drawn).toNat % 256 ^ conn.client.extranonce.length := by
  have width : conn.client.extranonce.length =
      cfg.pool.extranonce1Size + cfg.pool.extranonce2Size - conn.client.granted := by
    rw [cut.cut, length_generateExtranonce1]
  rw [width, ← beNat_generateExtranonce1, ← cut.cut]

theorem setConnection_drawn {id i : Nat} {new : Option Connection} {old conn : Connection} (was : s.connections id = some old)
    (same : ∀ conn, new = some conn → conn.drawn = old.drawn) (live : (s.setConnection id new).connections i = some conn) :
    ∃ old, s.connections i = some old ∧ conn.drawn = old.drawn := by
  rcases setConnection_cases live with ⟨rfl, here⟩ | ⟨-, there⟩
  · exact ⟨old, was, same conn here⟩
  · exact ⟨conn, there, rfl⟩

theorem step_draws {a : Action} (before : Reach step Always (start settings) s) (taken : step s a = some t) :
    (t.counters.extranonce1 = s.counters.extranonce1 ∧ t.generated = s.generated ∧
      ∀ i conn, t.connections i = some conn → ∃ old, s.connections i = some old ∧ conn.drawn = old.drawn) ∨
    (t.counters.extranonce1 = s.counters.extranonce1 + 1 ∧ t.generated = s.generated + 1 ∧
      ∃ id, ∀ i conn, t.connections i = some conn → (i = id ∧ conn.drawn = s.generated + 1) ∨
        (i ≠ id ∧ s.connections i = some conn)) := by
  cases step_inv taken with
  | engine moved =>
    refine .inl ⟨rfl, rfl, ?_⟩
    intro i conn live
    obtain ⟨old, was, rfl⟩ := Option.map_eq_some_iff.mp live
    refine ⟨old, was, ?_⟩
    unfold Connection.enqueue
    split <;> rfl
  | @connect id sv2 free =>
    refine .inr ⟨rfl, rfl, id, ?_⟩
    intro i conn live
    rcases setConnection_cases live with ⟨rfl, here⟩ | ⟨other, there⟩
    · obtain rfl := Option.some.inj here
      exact .inl ⟨rfl, rfl⟩
    · exact .inr ⟨other, there⟩
  | subscribe was stage =>
    refine .inl ⟨rfl, rfl, fun _ _ => setConnection_drawn was ?_⟩
    rintro _ ⟨⟩
    rfl
  | cacheJob was stage =>
    refine .inl ⟨rfl, rfl, fun _ _ => setConnection_drawn was ?_⟩
    rintro _ ⟨⟩
    rfl
  | @recv id old b rest was stage queued =>
    refine .inl ⟨rfl, rfl, fun _ _ => setConnection_drawn was ?_⟩
    intro conn here
    split at here
    · cases here
    · obtain rfl := Option.some.inj here
      rfl
  | disconnect was =>
    refine .inl ⟨rfl, rfl, fun _ _ => setConnection_drawn was ?_⟩
    intro conn here
    cases here
  | @request id old request served was stage handled =>
    unfold serve
    rcases (Client.handle_spec (reach_wellFormed before was) handled).extranonce with ⟨same, _, _⟩ | ⟨next, _, _, _⟩
    · refine .inl ⟨same, ?_, fun _ _ => setConnection_drawn was ?_⟩
      · simp [same]
      · intro conn here
        split at here
        · cases here
        · obtain rfl := Option.some.inj here
          simp [Connection.answered, same]
    · have moved : served.counters.extranonce1 ≠ s.counters.extranonce1 := by
        rw [next]
        intro same
        simp at same
      refine .inr ⟨next, by simp [moved], id, ?_⟩
      intro i conn live
      rcases setConnection_cases live with ⟨rfl, here⟩ | ⟨other, there⟩
      · split at here
        · cases here
        · obtain rfl := Option.some.inj here
          exact .inl ⟨rfl, by simp [Connection.answered, moved]⟩
      · exact .inr ⟨other, there⟩

theorem reach_counter (reached : Reach step Always (start settings) s) :
    s.counters.extranonce1 = counterAt (s.generated + 1) := by
  induction reached with
  | start => rfl
  | @step s t a before _ taken ih =>
    rcases step_draws before taken with ⟨same, generated, _⟩ | ⟨next, generated, _⟩
    · rw [same, generated, ih]
    · rw [next, generated, ih]
      exact (UInt64.ofNat_add (s.generated + 1) 1).symm

theorem reach_draws (reached : Reach step Always (start settings) s) :
    (∀ i a, s.connections i = some a → 0 < a.drawn ∧ a.drawn ≤ s.generated) ∧
    ∀ i j a b, s.connections i = some a → s.connections j = some b → a.drawn = b.drawn → i = j := by
  induction reached with
  | start =>
    constructor
    · intro i a live
      cases live
    · intro i j a b live
      cases live
  | @step s t _ before _ taken ih =>
    obtain ⟨below, distinct⟩ := ih
    rcases step_draws before taken with ⟨_, generated, kept⟩ | ⟨_, generated, id, drawn⟩
    · rw [generated]
      constructor
      · intro i a live
        obtain ⟨old, was, same⟩ := kept i a live
        rw [same]
        exact below i old was
      · intro i j a b liveA liveB same
        obtain ⟨oldA, wasA, sameA⟩ := kept i a liveA
        obtain ⟨oldB, wasB, sameB⟩ := kept j b liveB
        exact distinct i j oldA oldB wasA wasB (by rw [← sameA, ← sameB, same])
    · rw [generated]
      constructor
      · intro i a live
        rcases drawn i a live with ⟨_, new⟩ | ⟨_, old⟩
        · omega
        · have := below i a old
          omega
      · intro i j a b liveA liveB same
        rcases drawn i a liveA with ⟨rfl, newA⟩ | ⟨_, oldA⟩ <;> rcases drawn j b liveB with ⟨rfl, newB⟩ | ⟨_, oldB⟩
        · rfl
        · have := (below j b oldB).2
          omega
        · have := (below i a oldA).2
          omega
        · exact distinct i j a b oldA oldB same

theorem reach_cut (valid : d.config.validate = .ok ()) (reached : Reach step Always (start settings) s) {i : Nat}
    {conn : Connection} (live : s.connections i = some conn) : Cut d.config conn := by
  have total : 0 < d.config.pool.extranonce1Size := (Config.validate_accepted valid).extranonce1_pos
  refine reach_connection i (fun _ conn => Cut d.config conn) ?_ ?_ ?_ ?_ ?_ ?_ ?_ reached conn live
  · intro s t conn _ _ cut
    exact cut
  · intro s a t conn _ _ _ cut _ _
    unfold Connection.enqueue
    split
    · exact cut
    · exact ⟨cut.wellFormed, cut.inside, cut.cut⟩
  · intro s sv2 before
    have wf := accepted_wellFormed d.config
      (generateExtranonce1 s.counters.extranonce1 d.config.pool.extranonce1Size) sv2 (s.generated + 1)
    rw [reach_counter before] at wf ⊢
    cases sv2 <;>
      exact ⟨wf, Nat.le_add_left _ _, congrArg (generateExtranonce1 _) (Nat.add_sub_cancel _ _).symm⟩
  · intro s conn _ cut
    exact ⟨cut.wellFormed, cut.inside, cut.cut⟩
  · intro s conn _ _ cut
    obtain ⟨wf, inside, cut⟩ := cut
    refine ⟨cacheJob_wellFormed wf _, ?_, ?_⟩
    · revert inside
      cases conn.client <;> cases s.refreshes.engine.currentJob <;> exact id
    · revert cut
      cases conn.client <;> cases s.refreshes.engine.currentJob <;> exact id
  · intro s conn b rest _ _ _ _ _ cut _
    obtain ⟨_, extranonce, granted, wf, _⟩ := Client.handleBroadcast_spec d.config
      (rfl : conn.client.handleBroadcast s.counters b = _)
    refine ⟨wf cut.wellFormed, ?_, ?_⟩
    · show (conn.client.handleBroadcast s.counters b).client.granted ≤ _
      rw [granted]
      exact cut.inside
    · show (conn.client.handleBroadcast s.counters b).client.extranonce = generateExtranonce1 _ (_ -
        (conn.client.handleBroadcast s.counters b).client.granted)
      rw [extranonce, granted]
      exact cut.cut
  · intro s conn request served before _ _ _ cut handled _
    have spec := Client.handle_spec cut.wellFormed handled
    rcases spec.extranonce with ⟨same, extranonce, granted⟩ | ⟨next, positive, inside, extranonce⟩
    · rw [if_neg (not_not.mpr same)]
      refine ⟨spec.wellFormed, ?_, ?_⟩
      · show served.client.granted ≤ _
        rw [granted]
        exact cut.inside
      · show served.client.extranonce = generateExtranonce1 (counterAt conn.drawn) (_ - served.client.granted)
        rw [extranonce, granted]
        exact cut.cut
    · have moved : served.counters.extranonce1 ≠ s.counters.extranonce1 := by
        rw [next]
        intro same
        simp at same
      rw [if_pos moved]
      refine ⟨spec.wellFormed, ?_, ?_⟩
      · show served.client.granted ≤ _
        omega
      · show served.client.extranonce = generateExtranonce1 (counterAt (s.generated + 1)) (_ - served.client.granted)
        rw [extranonce, reach_counter before]

/-! ### Disjoint work -/

/-- Two live sessions can assemble no common coinbase of any job exactly when the cuts of their draws are apart; those
of the configured width are, while the counter has not gone around. -/
theorem live_disjoint_iff (valid : d.config.validate = .ok ()) (reached : Reach step Always (start settings) s)
    {i j : Nat} {a b : Connection} (liveA : s.connections i = some a) (liveB : s.connections j = some b)
    {jobId address : String} {gbt : GbtResult} {job : StratumJob}
    (built : buildJob d.crates jobId gbt address d.config.pool.coinbaseTag d.config.pool.extranonce1Size
      d.config.pool.extranonce2Size = .ok job) :
    ((∀ x y coinbaseA coinbaseB, x.length = a.client.granted → y.length = b.client.granted →
        job.assembleCoinbase a.client.extranonce x = .ok coinbaseA →
        job.assembleCoinbase b.client.extranonce y = .ok coinbaseB → coinbaseA ≠ coinbaseB) ↔ Apart a b) ∧
    (i ≠ j → s.generated < 256 ^ min d.config.pool.extranonce1Size 8 →
      a.client.extranonce.length = d.config.pool.extranonce1Size →
      b.client.extranonce.length = d.config.pool.extranonce1Size → Apart a b) := by
  have cutA := reach_cut valid reached liveA
  have cutB := reach_cut valid reached liveB
  obtain ⟨_, ⟨facts⟩⟩ := buildJob_facts built
  have assembled : ∀ {conn : Connection} (cut : Cut d.config conn) (x : Bytes), x.length = conn.client.granted →
      job.assembleCoinbase conn.client.extranonce x =
        .ok (job.coinbase1 ++ (conn.client.extranonce ++ x) ++ job.coinbase2) := by
    intro conn cut x width
    rw [assembleCoinbase_split facts (by rw [width, cut.width]), List.append_assoc job.coinbase1]
  have common := fill_iff_beNat (cutA.width.trans cutB.width.symm)
  rw [cutA.value, cutB.value] at common
  constructor
  · unfold Apart
    rw [Ne, ← common]
    constructor
    · rintro disjoint ⟨x, y, widthX, widthY, same⟩
      exact disjoint x y _ _ widthX widthY (assembled cutA x widthX) (assembled cutB y widthY) (by rw [same])
    · intro apart x y coinbaseA coinbaseB widthX widthY madeA madeB same
      rw [assembled cutA x widthX] at madeA
      rw [assembled cutB y widthY] at madeB
      obtain rfl := Outcome.ok.inj madeA
      obtain rfl := Outcome.ok.inj madeB
      have middle := List.append_cancel_left (List.append_cancel_right same)
      exact apart ⟨x, y, widthX, widthY, middle⟩
  · intro different few widthA widthB
    obtain ⟨below, distinct⟩ := reach_draws reached
    have exact : ∀ {k : Nat} {conn : Connection}, s.connections k = some conn →
        (counterAt conn.drawn).toNat % 256 ^ d.config.pool.extranonce1Size = conn.drawn := by
      intro k conn live
      have bound := (below k conn live).2
      have narrow : 256 ^ min d.config.pool.extranonce1Size 8 ≤ 256 ^ d.config.pool.extranonce1Size :=
        Nat.pow_le_pow_right (by decide) (Nat.min_le_left _ _)
      have word : 256 ^ min d.config.pool.extranonce1Size 8 ≤ 2 ^ 64 :=
        (Nat.pow_le_pow_right (by decide) (Nat.min_le_right _ _)).trans (by decide)
      unfold counterAt
      rw [UInt64.toNat_ofNat_of_lt' (by show conn.drawn < 2 ^ 64; omega), Nat.mod_eq_of_lt (by omega)]
    unfold Apart
    rw [widthA, widthB, exact liveA, exact liveB, Nat.sub_self, Nat.pow_zero, Nat.div_one, Nat.div_one]
    intro same
    exact different (distinct i j a b liveA liveB same)

theorem exampleJob_builds : ∃ job, buildJob mainnetCrates "0000000000000001" (testTemplate genesisHash "1d00ffff")
    testAddress exampleConfig.pool.coinbaseTag exampleConfig.pool.extranonce1Size exampleConfig.pool.extranonce2Size =
    .ok job := exists_of_isOk (by decide +kernel)

theorem live_disjoint_iff_joined :
    ∃ s : Server testDeployment, Reach step Always (start testSettings) s ∧
      ∃ a b, s.connections 0 = some a ∧ s.connections 1 = some b ∧ Apart a b := by
  obtain ⟨s, reached, a, liveA, b, liveB, few, widthA, widthB⟩ : ∃ s : Server testDeployment,
      Reach step Always (start testSettings) s ∧ ∃ a ∈ s.connections 0, ∃ b ∈ s.connections 1,
        s.generated < 256 ^ min exampleConfig.pool.extranonce1Size 8 ∧
        a.client.extranonce.length = exampleConfig.pool.extranonce1Size ∧
        b.client.extranonce.length = exampleConfig.pool.extranonce1Size :=
    Reach.of_run (joins 0 false ++ joins 1 true ++ opens 1 4) (by decide +kernel)
  obtain ⟨job, built⟩ := exampleJob_builds
  exact ⟨s, reached, a, b, liveA, liveB,
    (live_disjoint_iff (by decide) reached liveA liveB built).2 (by decide) few widthA widthB⟩

/-- Two SV2 devices that ask for the whole extranonce are left no prefix, and can search the same coinbases. -/
theorem opened_channels_overlap :
    exampleConfig.validate = .ok () ∧
    ∃ s : Server testDeployment, Reach step Always (start testSettings) s ∧
      s.generated < 256 ^ exampleConfig.pool.extranonce1Size ∧
      ∃ a b job x coinbase, s.connections 0 = some a ∧ s.connections 1 = some b ∧
        buildJob mainnetCrates "0000000000000001" (testTemplate genesisHash "1d00ffff") testAddress
          exampleConfig.pool.coinbaseTag exampleConfig.pool.extranonce1Size exampleConfig.pool.extranonce2Size = .ok job ∧
        x.length = a.client.granted ∧ x.length = b.client.granted ∧
        job.assembleCoinbase a.client.extranonce x = .ok coinbase ∧
        job.assembleCoinbase b.client.extranonce x = .ok coinbase := by
  refine ⟨by decide, ?_⟩
  obtain ⟨s, reached, a, liveA, b, liveB, few, noneA, noneB, allA, allB⟩ : ∃ s : Server testDeployment,
      Reach step Always (start testSettings) s ∧ ∃ a ∈ s.connections 0, ∃ b ∈ s.connections 1,
        s.generated < 256 ^ exampleConfig.pool.extranonce1Size ∧ a.client.extranonce = [] ∧ b.client.extranonce = [] ∧
        a.client.granted = 8 ∧ b.client.granted = 8 :=
    Reach.of_run (joins 0 true ++ joins 1 true ++ opens 0 8 ++ opens 1 8) (by decide +kernel)
  obtain ⟨job, built⟩ := exampleJob_builds
  obtain ⟨_, ⟨facts⟩⟩ := buildJob_facts built
  have assembled := assembleCoinbase_split facts (show ([] : Bytes).length + (List.replicate 8 (0 : UInt8)).length = _ from rfl)
  rw [← allA] at allB
  rw [← noneA] at noneB assembled
  have width : (List.replicate 8 (0 : UInt8)).length = a.client.granted := by rw [allA, List.length_replicate]
  exact ⟨s, reached, few, a, b, job, _, _, liveA, liveB, built, width, width.trans allB.symm, assembled, noneB ▸ assembled⟩

end Server

end SoloPool
