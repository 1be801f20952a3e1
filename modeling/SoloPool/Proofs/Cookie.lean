import SoloPool.Bitcoin.Cookie
import SoloPool.Lib.Tasks

/-!
# Calls across a cookie rotation

Over every interleaving of calls with restarts of the node, no call is attempted more than twice. If the cookie file did
not change while the client was built, or once a call has installed another, the stored cookie is the one the client was
built with, and a call gets past the credentials whenever the cookie file has ones the node accepts and nothing but its own
repair changed meanwhile.
-/

namespace SoloPool.RpcClient
open Lib

variable {α : Type} {s t : RpcClient α} {i : Nat} {call : RpcCall} {answer : Result α} {calm : Prop}

/-- The cookie in the file is one the node accepts. -/
def Node.Serves (node : Node) : Prop := ∃ cookie, readCookie node.file = some cookie ∧ node.accepts cookie = true

/-- How many clients the call has installed. -/
def RpcStage.installs : RpcStage → Nat
  | .retrying => 1
  | _ => 0

/-- What a call knows while nothing but the call itself changes the node or the client. -/
def Knows (node : Node) (inner : Inner) : RpcStage → Prop
  | .calling => True
  | .reading _ through => through = false → node.accepts inner.client = false
  | .comparing _ through freshCookie =>
    (through = false → node.accepts inner.client = false) ∧ readCookie node.file = some freshCookie
  | .replacing freshCookie => readCookie node.file = some freshCookie
  | .retrying => readCookie node.file = some inner.client

def attemptsAt : RpcStage → Nat
  | .calling => 0
  | _ => 1

/-- A call under way: its attempts, and what it knows unless it was disturbed. -/
structure CallSound (node : Node) (inner : Inner) (mark : Mark) (call : RpcCall) : Prop where
  attempts : call.attempts = attemptsAt call.stage
  changed : call.started.changes ≤ mark.changes
  installed : call.started.installs + RpcStage.installs call.stage ≤ mark.installs
  knows : call.started.changes = mark.changes → call.started.installs + RpcStage.installs call.stage = mark.installs →
    Knows node inner call.stage

/-- A call that returned: at most two attempts, and past the credentials unless it was disturbed. `calm` is that the cookie
file read the same twice when the client was built. -/
structure ReturnSound (calm : Prop) (r : Returned α) : Prop where
  attempts : 1 ≤ r.attempts ∧ r.attempts ≤ 2
  recovers : calm ∨ 0 < r.started.installs → r.started.changes = r.ended.changes →
    r.started.installs + (r.attempts - 1) = r.ended.installs → Node.Serves r.node → r.through = true

structure Sound (calm : Prop) (s : RpcClient α) : Prop where
  paired : calm ∨ 0 < s.mark.installs → ∀ cookie, s.inner.cookie = some cookie → s.inner.client = cookie
  calls : ∀ call ∈ s.calls, CallSound s.node s.inner s.mark call
  returned : ∀ r ∈ s.returned, ReturnSound calm r

theorem start_sound {before : Option String} {node : Node} {explicit : Option Cookie}
    (booted : new before node explicit = some s) : s.Sound (readCookie before = readCookie node.file) := by
  obtain ⟨client, auth, same⟩ := Option.bind_eq_some_iff.mp booted
  obtain rfl := Option.some.inj same
  refine ⟨?_, List.forall_mem_nil _, List.forall_mem_nil _⟩
  rintro (calm | installed) cookie stored
  · unfold rpcAuth at auth
    rw [← calm, show readCookie before = some cookie from stored] at auth
    exact (Option.some.inj auth).symm
  · cases installed

theorem finish_sound (sound : s.Sound calm) (last : RpcCall) (outcome : Result α) {through : Bool}
    (started : last.started = call.started) (attempts : 1 ≤ last.attempts ∧ last.attempts ≤ 2)
    (recovers : calm ∨ 0 < call.started.installs → call.started.changes = s.mark.changes →
      call.started.installs + (last.attempts - 1) = s.mark.installs → Node.Serves s.node → through = true) : (s.finish i last outcome through).Sound calm := by
  refine ⟨sound.paired, fun other among => sound.calls other (List.mem_of_mem_eraseIdx among), ?_⟩
  exact forall_append sound.returned ⟨attempts, by rw [started]; exact recovers⟩

theorem advance_sound (sound : s.Sound calm) (last : RpcCall) (stage : RpcStage)
    (own : CallSound s.node s.inner s.mark { last with stage }) : (s.advance i last stage).Sound calm :=
  ⟨sound.paired, forall_set sound.calls own, sound.returned⟩

theorem proceed_sound (sound : s.Sound calm) (running : s.calls[i]? = some call) (answer : Result α) :
    (s.proceed i call answer).Sound calm := by
  obtain ⟨attempts, changed, installed, knows⟩ := sound.calls call (mem_of_running running)
  obtain ⟨stage, count, started⟩ := call
  dsimp only at attempts changed installed knows
  subst attempts
  cases stage with
  | calling =>
    unfold proceed attempt
    dsimp only
    cases accepted : s.node.accepts s.inner.client with
    | true =>
      rw [if_pos rfl]
      have returns : ∀ outcome, (s.finish i { stage := .calling, attempts := 0 + 1, started } outcome true).Sound calm :=
        fun outcome => finish_sound sound _ _ rfl ⟨Nat.le_refl 1, Nat.le_succ 1⟩ fun _ _ _ _ => rfl
      cases answer with
      | ok value => exact returns _
      | err e => exact advance_sound sound _ _ ⟨rfl, changed, installed, fun _ _ => nofun⟩
      | panic => exact returns _
    | false =>
      rw [if_neg Bool.false_ne_true]
      exact advance_sound sound _ _ ⟨rfl, changed, installed, fun _ _ _ => accepted⟩
  | reading firstErr through =>
    unfold proceed
    dsimp only
    split
    · rename_i unreadable
      refine finish_sound sound _ _ rfl ⟨Nat.le_refl 1, Nat.le_succ 1⟩ ?_
      rintro _ _ _ ⟨cookie, readable, _⟩
      rw [unreadable] at readable
      cases readable
    · rename_i freshCookie readable
      exact advance_sound sound _ _ ⟨rfl, changed, installed, fun same since => ⟨knows same since, readable⟩⟩
  | comparing firstErr through freshCookie =>
    unfold proceed
    dsimp only
    split
    · rename_i unchanged
      refine finish_sound sound _ _ rfl ⟨Nat.le_refl 1, Nat.le_succ 1⟩ ?_
      rintro kept same since ⟨cookie, readable, accepted⟩
      obtain ⟨refused, fresh⟩ := knows same since
      by_contra unauthorized
      have rejected := refused (Bool.eq_false_of_not_eq_true unauthorized)
      have paired : s.inner.client = freshCookie :=
        sound.paired (kept.imp_right (Nat.lt_of_lt_of_le · installed)) freshCookie unchanged
      rw [paired] at rejected
      rw [fresh] at readable
      obtain rfl := Option.some.inj readable
      rw [rejected] at accepted
      cases accepted
    · exact advance_sound sound _ _ ⟨rfl, changed, installed, fun same since => (knows same since).2⟩
  | replacing freshCookie =>
    refine ⟨fun _ cookie stored => Option.some.inj stored, ?_, sound.returned⟩
    refine forall_set (fun other among => ?_) ⟨rfl, changed, Nat.succ_le_succ installed, fun same since => ?_⟩
    · -- Every other call under way is disturbed.
      obtain ⟨attempts, changed, installed, _⟩ := sound.calls other among
      refine ⟨attempts, changed, Nat.le_succ_of_le installed, fun _ since => ?_⟩
      exact absurd since (Nat.ne_of_lt (Nat.lt_succ_of_le installed))
    · exact knows same (Nat.succ.inj since)
  | retrying =>
    unfold proceed attempt
    dsimp only
    refine finish_sound sound _ _ rfl ⟨Nat.le_succ 1, Nat.le_refl 2⟩ ?_
    rintro _ same since ⟨cookie, readable, accepted⟩
    rw [knows same since] at readable
    obtain rfl := Option.some.inj readable
    rw [if_pos accepted]

theorem step_sound {a : Action α} (sound : s.Sound calm) (taken : s.step a = some t) : t.Sound calm := by
  cases a with
  | change node =>
    obtain rfl := Option.some.inj taken
    refine ⟨sound.paired, fun call among => ?_, sound.returned⟩
    obtain ⟨attempts, changed, installed, _⟩ := sound.calls call among
    refine ⟨attempts, Nat.le_succ_of_le changed, installed, fun same _ => ?_⟩
    exact absurd same (Nat.ne_of_lt (Nat.lt_succ_of_le changed))
  | start =>
    obtain rfl := Option.some.inj taken
    refine ⟨sound.paired, forall_append sound.calls ?_, sound.returned⟩
    exact ⟨rfl, Nat.le_refl _, Nat.le_refl _, fun _ _ => trivial⟩
  | proceed i answer =>
    obtain ⟨call, running, rfl⟩ := Option.map_eq_some_iff.mp taken
    exact proceed_sound sound running answer

/-- In every run a call is attempted once or twice. If the cookie file read the same twice when the client was built, or
once a call has installed another client, the stored cookie is the one the client was built with, and a call gets past the
node's credentials, and so returns the node's own answer, whenever from its start to its end neither the node nor the cookie
file changed, no other call installed a client, and the file holds a cookie the node accepts. -/
theorem call_recovers {before : Option String} {node : Node} {explicit : Option Cookie} {booted : RpcClient α}
    (boots : new before node explicit = some booted) (reached : Reach step Always booted s) :
    (readCookie before = readCookie node.file ∨ 0 < s.mark.installs →
      ∀ cookie, s.inner.cookie = some cookie → s.inner.client = cookie) ∧
    ∀ r ∈ s.returned, 1 ≤ r.attempts ∧ r.attempts ≤ 2 ∧
      (readCookie before = readCookie node.file ∨ 0 < r.started.installs →
        r.started.changes = r.ended.changes → r.started.installs + (r.attempts - 1) = r.ended.installs →
        (∃ cookie, readCookie r.node.file = some cookie ∧ r.node.accepts cookie = true) → r.through = true) := by
  have sound : s.Sound (readCookie before = readCookie node.file) :=
    reached.invariant (Sound _) (start_sound boots) (fun _ _ _ _ sound _ taken => step_sound sound taken)
  refine ⟨sound.paired, fun r among => ?_⟩
  obtain ⟨⟨least, most⟩, recovers⟩ := sound.returned r among
  exact ⟨least, most, recovers⟩

/-! ### A node that restarts -/

def nodeWith (password : String) : Node :=
  { file := some ("__cookie__:" ++ password ++ "\n"), accepts := fun cookie => cookie == ("__cookie__", password) }

def bootedClient : RpcClient Unit where
  node := nodeWith "first"
  inner := { client := ("__cookie__", "first"), cookie := some ("__cookie__", "first") }
  calls := []
  mark := { changes := 0, installs := 0 }
  returned := []

theorem bootedClient_boots : new (nodeWith "first").file (nodeWith "first") none = some bootedClient := by
  have read : readCookie (nodeWith "first").file = some ("__cookie__", "first") := by decide +kernel
  unfold new rpcAuth
  rw [read]
  rfl

def restarts : Action Unit := .change (nodeWith "second")

theorem call_recovers_restarted :
    ∃ s, Reach step Always bootedClient s ∧ ∃ r ∈ s.returned, r.attempts = 2 ∧ r.through = true := by
  obtain ⟨s, reached, r, last, undisturbed, since, count, served⟩ : ∃ s, Reach step Always bootedClient s ∧
      ∃ r ∈ s.returned.head?, r.started.changes = r.ended.changes ∧ r.started.installs + (r.attempts - 1) = r.ended.installs ∧
        r.attempts = 2 ∧ (readCookie r.node.file).any r.node.accepts = true :=
    Reach.of_run ([restarts, .start] ++ List.replicate 5 (.proceed 0 (.ok ()))) (by decide +kernel)
  obtain ⟨cookie, readable, accepted⟩ := (Option.any_eq_true _ _).mp served
  have among : r ∈ s.returned := List.mem_of_mem_head? last
  exact ⟨s, reached, r, among, count,
    ((call_recovers bootedClient_boots reached).2 r among).2.2 (.inl rfl) undisturbed since ⟨cookie, readable, accepted⟩⟩

/-- Of two calls that fail side by side only one repairs the client; the other finds the cookie no longer new and gives
up, though the node would accept it by then. -/
theorem repaired_meanwhile_gives_up :
    ∃ s, Reach step Always bootedClient s ∧ ∃ r ∈ s.returned, r.started.changes = r.ended.changes ∧ r.attempts = 1 ∧
      r.through = false ∧ s.node.accepts s.inner.client = true := by
  obtain ⟨s, reached, r, last, rest⟩ : ∃ s, Reach step Always bootedClient s ∧
      ∃ r ∈ s.returned.getLast?, r.started.changes = r.ended.changes ∧ r.attempts = 1 ∧ r.through = false ∧
        s.node.accepts s.inner.client = true :=
    Reach.of_run ([restarts, .start, .start, .proceed 1 (.ok ())] ++ List.replicate 5 (.proceed 0 (.ok ())) ++
      List.replicate 2 (.proceed 0 (.ok ()))) (by decide +kernel)
  exact ⟨s, reached, r, List.mem_of_mem_getLast? last, rest⟩

/-- The cookie file cannot be read for a moment while the client is built, which is then built with explicit credentials
and remembers the cookie: that is not new to any call, and a call does not get past a node that accepts it. -/
theorem unreadable_while_built_sticks :
    ∃ booted s : RpcClient Unit, new (nodeWith "first").file { nodeWith "first" with file := none } (some ("user", "wrong")) =
        some booted ∧ Reach step Always booted s ∧
      ∃ r ∈ s.returned, r.started.changes = r.ended.changes ∧ r.ended.installs = 0 ∧
        (readCookie r.node.file).any r.node.accepts = true ∧ r.through = false := by
  let booted : RpcClient Unit :=
    { node := { nodeWith "first" with file := none }
      inner := { client := ("user", "wrong"), cookie := some ("__cookie__", "first") }
      calls := [], mark := { changes := 0, installs := 0 }, returned := [] }
  have boots : new (nodeWith "first").file { nodeWith "first" with file := none } (some ("user", "wrong")) = some booted := by
    have read : readCookie (nodeWith "first").file = some ("__cookie__", "first") := by decide +kernel
    unfold new rpcAuth
    rw [read]
    rfl
  obtain ⟨s, reached, r, last, facts⟩ : ∃ s, Reach step Always booted s ∧
      ∃ r ∈ s.returned.head?, r.started.changes = r.ended.changes ∧ r.ended.installs = 0 ∧
        (readCookie r.node.file).any r.node.accepts = true ∧ r.through = false :=
    Reach.of_run ([.change (nodeWith "first"), .start] ++ List.replicate 3 (.proceed 0 (.ok ()))) (by decide +kernel)
  exact ⟨booted, s, boots, reached, r, List.mem_of_mem_head? last, facts⟩

end SoloPool.RpcClient
