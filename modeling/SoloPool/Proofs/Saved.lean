import SoloPool.Network.Dashboard
import SoloPool.Proofs.Payout

/-!
# The saved payout address

A settings request changes the address in memory and then saves it. What is saved in the end is what is in force as
long as no request saves an older address after the last update was saved.
-/

namespace SoloPool
open Lib

namespace Refreshes

variable {p : Process} {s s' : Refreshes p} {a : Action} {t : Nat}

/-- Every save succeeds, and saves the address in force unless the last update is still to be saved. -/
def SavesInForce (s : Refreshes p) : Action → Prop
  | .save t persists => persists = true ∧ ∀ address update, s.tasks t = .updated address update →
      address = s.settings.address ∨ ∃ u last, s.tasks u = .updated last s.updates
  | _ => True

/-- No settings request is in flight. -/
def Unserved (s : Refreshes p) : Prop := ∀ t, servedUpdate (s.tasks t) = none

/-- The requests that have yet to save, the last one with the address in force, which is saved once there is no last one;
nothing is said before the first update. -/
structure Saving (s : Refreshes p) : Prop where
  pending : ∀ t address update, s.tasks t = .updated address update →
    update ≤ s.updates ∧ (update = s.updates → address = s.settings.address)
  settings : 0 < s.updates → s.settings.valid = true ∧ validateAddress p.crates s.settings.address s.settings.network = .ok ()
  saved : 0 < s.updates → s.persisted = some s.settings.address ∨ ∃ t address, s.tasks t = .updated address s.updates

theorem afterRefresh_ne_updated (caller : Caller) (address : String) (update : Nat) :
    (caller.afterRefresh : Task p) ≠ .updated address update := by
  cases caller <;> exact fun same => by cases same

/-- A step of a refresh, or of a request that has saved: nothing that was to be saved changes. -/
theorem Saving.move {task : Task p} (inv : Saving s) (before : ∀ address update, s.tasks t ≠ .updated address update)
    (after : ∀ address update, task ≠ .updated address update) (tasks : s'.tasks = Function.update s.tasks t task)
    (settings : s'.settings = s.settings) (persisted : s'.persisted = s.persisted) (updates : s'.updates = s.updates) :
    Saving s' := by
  have same : ∀ u address update, s'.tasks u = .updated address update ↔ s.tasks u = .updated address update := by
    intro u address update
    rw [tasks]
    by_cases own : u = t
    · subst own
      rw [Function.update_self]
      exact ⟨fun held => absurd held (after _ _), fun held => absurd held (before _ _)⟩
    · rw [Function.update_of_ne own]
  constructor
  · intro u address update held
    rw [settings, updates]
    exact inv.pending u address update ((same u address update).mp held)
  · rw [settings, updates]
    exact inv.settings
  · rw [settings, updates, persisted]
    intro some
    rcases inv.saved some with done | ⟨u, address, held⟩
    · exact .inl done
    · exact .inr ⟨u, address, (same u address _).mpr held⟩

theorem update_saving (inv : Saving s) {coinbaseAddress : String} {settings : RuntimeSettings}
    (applied : s.settings.update p.crates (trim coinbaseAddress) = .ok settings) :
    Saving { s.setTask t (.updated (trim coinbaseAddress) (s.updates + 1)) with
      settings, updates := s.updates + 1, settled := none } := by
  obtain ⟨rfl, valid⟩ := RuntimeSettings.update_inv applied
  refine ⟨fun u address update held => ?_, fun _ => ⟨rfl, valid⟩, fun _ => .inr ⟨t, trim coinbaseAddress, ?_⟩⟩
  · dsimp only [setTask] at held ⊢
    by_cases own : u = t
    · subst own
      rw [Function.update_self] at held
      cases held
      exact ⟨le_rfl, fun _ => rfl⟩
    · rw [Function.update_of_ne own] at held
      have older := (inv.pending u address update held).1
      exact ⟨by omega, fun last => by omega⟩
  · exact Function.update_self ..

theorem save_saving (inv : Saving s) {address : String} {update : Nat} (updated : s.tasks t = .updated address update)
    (allowed : address = s.settings.address ∨ ∃ u last, s.tasks u = .updated last s.updates) :
    Saving { s.setTask t (.refreshing (.settingsPost address update) (.entered true)) with persisted := some address } := by
  have left : ∀ u other number, (s.setTask t (.refreshing (.settingsPost address update) (.entered true))).tasks u =
      .updated other number → s.tasks u = .updated other number := by
    intro u other number held
    dsimp only [setTask] at held
    by_cases own : u = t
    · rw [own, Function.update_self] at held
      cases held
    · rwa [Function.update_of_ne own] at held
  refine ⟨fun u other number held => inv.pending u other number (left u other number held), inv.settings, fun _ => ?_⟩
  dsimp only [setTask]
  by_cases last : update = s.updates
  · exact .inl (congrArg some ((inv.pending t address update updated).2 last))
  · rcases allowed with same | ⟨u, other, held⟩
    · exact .inl (congrArg some same)
    · have apart : u ≠ t := by
        rintro rfl
        rw [updated] at held
        cases held
        exact last rfl
      refine .inr ⟨u, other, ?_⟩
      rw [Function.update_of_ne apart]
      exact held

theorem step_saving (inv : Saving s) (good : SavesInForce s a) (taken : step s a = some s') : Saving s' := by
  cases step_inv taken with
  | refused => exact inv
  | update idle applied => exact update_saving inv applied
  | save updated =>
    obtain ⟨rfl, allowed⟩ := good
    exact save_saving inv updated (allowed _ _ updated)
  | enter idle => exact inv.move (by simp [idle]) (by simp) rfl rfl rfl rfl
  | readAddress entered valid => exact inv.move (by simp [entered]) (by simp) rfl rfl rfl rfl
  | fetch read => exact inv.move (by simp [read]) (by simp) rfl rfl rfl rfl
  | build fetched from_fetch => exact inv.move (by simp [fetched]) (by simp) rfl rfl rfl rfl
  | fail fallible waiting ended kept =>
    refine inv.move ?_ ?_ rfl rfl rfl rfl
    · rcases waiting with ⟨_, held⟩ | ⟨_, _, _, held⟩ | ⟨_, _, _, _, held⟩ <;> simp [held]
    · rcases ended with rfl | rfl
      · simp
      · exact afterRefresh_ne_updated _
  | set built => exact inv.move (by simp [built]) (by simp) (setCurrent_tasks ..) rfl rfl rfl
  | push set => exact inv.move (by simp [set]) (by simp) rfl rfl rfl rfl
  | broadcast pushed => exact inv.move (by simp [pushed]) (afterRefresh_ne_updated _) rfl rfl rfl rfl
  | respond finished => exact inv.move (by simp [finished]) (by simp) rfl rfl rfl rfl

theorem reach_saving {settings : RuntimeSettings} {stored : Option String}
    (reached : Reach step SavesInForce { start settings with persisted := stored } s) : Saving s := by
  refine reached.invariant Saving ⟨fun t address update held => ?_, fun some => ?_, fun some => ?_⟩ ?_
  · cases held
  · cases some
  · cases some
  · intro s a s' _ inv good taken
    exact step_saving inv good taken

/-- With every save in force, a restart on the same network loads the address in memory whenever no request is in
flight; and a refused request changes nothing, in any state. -/
theorem saved_address_in_force (settings : RuntimeSettings) (stored : Option String) :
    (∀ s : Refreshes p, Reach step SavesInForce { start settings with persisted := stored } s → Unserved s → 0 < s.updates →
      ∀ pool nodeChain booted, RuntimeSettings.boot p.crates pool nodeChain s.persisted = .ok booted →
        booted.network = s.settings.network → booted = s.settings) ∧
    ∀ (d : Dashboard) (s s' : Refreshes p) t headers coinbaseAddress,
      step s (d.settingsPost t headers coinbaseAddress) = some s' →
      (d.refuses p.crates s.settings headers coinbaseAddress).isSome = true → s' = s := by
  constructor
  · intro s reached unserved some pool nodeChain booted boot network
    have inv := reach_saving reached
    obtain ⟨valid, validated⟩ := inv.settings some
    rcases inv.saved some with saved | ⟨t, address, pending⟩
    · rw [saved] at boot
      rw [← network] at validated
      rw [RuntimeSettings.boot_persisted boot validated, network, ← valid]
    · have served := unserved t
      rw [pending] at served
      cases served
  · intro d s s' t headers coinbaseAddress taken refused
    unfold Dashboard.settingsPost at taken
    unfold Dashboard.refuses at refused
    generalize d.admits headers = admitted at taken refused
    generalize post : Action.post t admitted.isOk coinbaseAddress = a at taken
    cases step_inv taken with
    | refused => rfl
    | update idle applied =>
      obtain ⟨rfl, passes, rfl⟩ := Action.post.inj post
      cases admitted with
      | error e => cases passes
      | ok =>
        dsimp only at refused
        rw [applied] at refused
        cases refused
    | enter | save | readAddress | fetch | build | set | push | broadcast | respond => cases post
    | fail fallible =>
      rw [← post] at fallible
      cases fallible

theorem confined_unserved {n : Nat} {good : Refreshes p → Action → Prop} {settings : RuntimeSettings}
    (reached : Reach step (Confined n good) (start settings) s) (held : ∀ t < n, (servedUpdate (s.tasks t)).isNone = true) :
    Unserved s := by
  intro t
  by_cases moved : t < n
  · simpa using held t moved
  · rw [confined_idle reached t (by omega)]
    rfl

def Task.saves (address : String) : Task p → Bool
  | .updated own _ => own == address
  | _ => true

/-- Every save succeeds and saves the address in force at that moment. -/
def SavesAtOnce (s : Refreshes p) : Action → Prop
  | .save t persists => persists = true ∧ Task.saves s.settings.address (s.tasks t) = true
  | _ => True

def SavesSucceed (_ : Refreshes p) : Action → Prop
  | .save _ persists => persists = true
  | _ => True

instance (s : Refreshes p) (a : Action) : Decidable (SavesAtOnce s a) :=
  match a with
  | .save t persists => inferInstanceAs (Decidable (persists = true ∧ Task.saves s.settings.address (s.tasks t) = true))
  | .enter _ | .post _ _ _ | .readAddress _ | .fetch _ _ | .build _ | .set _ | .push _ | .broadcast _ | .respond _ =>
    isTrue trivial

instance (s : Refreshes p) (a : Action) : Decidable (SavesSucceed s a) :=
  match a with
  | .save _ persists => inferInstanceAs (Decidable (persists = true))
  | .enter _ | .post _ _ _ | .readAddress _ | .fetch _ _ | .build _ | .set _ | .push _ | .broadcast _ | .respond _ =>
    isTrue trivial

/-- The rest of a request whose fetch fails. -/
def respondsUnfetched (t : Nat) : List Action := [.readAddress t, .fetch t (.error (.rpc .transport)), .respond t]

def otherSettings : RuntimeSettings := { testSettings with address := otherAddress }

theorem saved_address_in_force_requests :
    ∃ s : Refreshes testProcess, Reach step SavesInForce { start testSettings with persisted := none } s ∧ Unserved s ∧
      s.updates = 2 ∧ RuntimeSettings.boot mainnetCrates exampleConfig.pool "main" s.persisted = .ok otherSettings ∧
      otherSettings = s.settings := by
  obtain ⟨s, confined, held, two, boot, network⟩ : ∃ s : Refreshes testProcess,
      Reach step (Confined 3 SavesAtOnce) (start testSettings) s ∧
      (∀ t < 3, (servedUpdate (s.tasks t)).isNone = true) ∧ s.updates = 2 ∧
      RuntimeSettings.boot mainnetCrates exampleConfig.pool "main" s.persisted = .ok otherSettings ∧
      otherSettings.network = s.settings.network :=
    Reach.of_run ([.post 1 true testAddress, .save 1 true, .post 2 true otherAddress, .save 2 true] ++
      respondsUnfetched 1 ++ respondsUnfetched 2) (by decide +kernel)
  have reached : Reach step SavesInForce (start testSettings) s := by
    refine confined.mono fun s a _ meets => ?_
    cases a with
    | save t persists =>
      refine ⟨meets.1.1, fun address update held => .inl ?_⟩
      have same := meets.1.2
      rw [held] at same
      exact beq_iff_eq.mp same
    | enter | post | readAddress | fetch | build | set | push | broadcast | respond => trivial
  have unserved := confined_unserved confined held
  have some : 0 < s.updates := by rw [two]; decide
  exact ⟨s, reached, unserved, two, boot,
    (saved_address_in_force testSettings none).1 s reached unserved some _ _ _ boot network⟩

/-- Both requests update before either saves, and they save in the opposite order. -/
def savesCrossed : List Action :=
  [.post 1 true testAddress, .post 2 true otherAddress, .save 2 true, .save 1 true] ++
    respondsUnfetched 1 ++ respondsUnfetched 2

theorem older_address_saved_last :
    ∃ s : Refreshes testProcess, Reach step SavesSucceed (start testSettings) s ∧ Unserved s ∧ s.updates = 2 ∧
      RuntimeSettings.boot mainnetCrates exampleConfig.pool "main" s.persisted = .ok testSettings ∧
      testSettings.network = s.settings.network ∧ testSettings ≠ s.settings := by
  obtain ⟨s, confined, held, two, boot, network, apart⟩ : ∃ s : Refreshes testProcess,
      Reach step (Confined 3 SavesSucceed) (start testSettings) s ∧
      (∀ t < 3, (servedUpdate (s.tasks t)).isNone = true) ∧ s.updates = 2 ∧
      RuntimeSettings.boot mainnetCrates exampleConfig.pool "main" s.persisted = .ok testSettings ∧
      testSettings.network = s.settings.network ∧ testSettings ≠ s.settings :=
    Reach.of_run savesCrossed (by decide +kernel)
  exact ⟨s, confined.mono fun _ _ _ meets => meets.1, confined_unserved confined held, two, boot, network, apart⟩

end Refreshes

end SoloPool
