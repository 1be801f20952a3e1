import Mathlib.Data.Finset.Card
import SoloPool.Security.BanList

/-!
# Bans that stay in force

An entry leaves the list when it has expired, or when the list is full of entries that expire no earlier. So a ban that is
lost before its time was followed by as many bans of other addresses as the list holds.
-/

namespace SoloPool
open Lib

namespace BanList

/-! ### Calls -/

inductive Call where
  | ban (ip : IpAddr) (reason : String) (pruneAt now : Instant) (rank : IpAddr → Nat)
  | isBanned (ip : IpAddr) (first second : Instant)
  | prune (now : Instant)

namespace Call

def readings : Call → List Instant
  | ban _ _ pruneAt now _ => [pruneAt, now]
  | isBanned _ first second => [first, second]
  | prune now => [now]

/-- The address and the time of a ban. -/
def banned : Call → Option (IpAddr × Instant)
  | ban ip _ _ now _ => some (ip, now)
  | _ => none

end Call

def apply (latest : Instant) (bl : BanList) : Call → BanList
  | .ban ip reason pruneAt now rank => (bl.ban latest rank pruneAt now ip reason).2
  | .isBanned ip first second => (bl.isBanned first second ip).2
  | .prune now => bl.prune now

def run (latest : Instant) (bl : BanList) (calls : List Call) : BanList := calls.foldl (apply latest) bl

/-- The bans that were called for. -/
def bans (calls : List Call) : List (IpAddr × Instant) := calls.filterMap Call.banned

/-- The clock does not go back. -/
def Ordered (calls : List Call) : Prop := (calls.flatMap Call.readings).Pairwise (· ≤ ·)

instance (calls : List Call) : Decidable (Ordered calls) := inferInstanceAs (Decidable (List.Pairwise _ _))

/-- The addresses other than `ip` that were banned at `s` or later. -/
def others (history : List (IpAddr × Instant)) (ip : IpAddr) (s : Instant) : Finset IpAddr :=
  ((history.filter fun ban => decide (ban.1 ≠ ip ∧ s ≤ ban.2)).map (·.1)).toFinset

/-- The bans whose calls returned: their expiry is an instant the platform can represent. -/
def returned (latest : Instant) (duration : Nat) (history : List (IpAddr × Instant)) : List (IpAddr × Instant) :=
  history.filter fun ban => decide (ban.2 + duration ≤ latest)

/-- As many other addresses as the list holds were banned at `s` or later, all by calls that returned but for one, which may
have panicked when it had made room. -/
def Displaced (latest : Instant) (duration maxEntries : Nat) (history : List (IpAddr × Instant)) (ip : IpAddr)
    (s : Instant) : Prop :=
  ∃ last : Option (IpAddr × Instant), (∀ ban ∈ last, ban ∈ history) ∧
    maxEntries ≤ (others (returned latest duration history ++ last.toList) ip s).card

/-! ### The invariant -/

/-- A ban has its entry, or has expired, or has made room for others. -/
def Kept (latest now : Instant) (bl : BanList) (history : List (IpAddr × Instant)) (ip : IpAddr) (s : Instant) : Prop :=
  (∃ entry, bl.entries.lookup ip = some entry ∧ s + bl.banDuration ≤ entry.expiry) ∨ s + bl.banDuration ≤ now ∨
    Displaced latest bl.banDuration bl.maxEntries history ip s

/-- The list after its latest reading of the clock, beside the bans that were called for. -/
structure Tracks (latest now : Instant) (bl : BanList) (history : List (IpAddr × Instant)) : Prop where
  bounded : bl.entries.keys.length ≤ bl.maxEntries
  past : ∀ ban ∈ history, ban.2 ≤ now
  real : ∀ ip entry, bl.entries.lookup ip = some entry →
    ∃ s, (ip, s) ∈ history ∧ entry.expiry = s + bl.banDuration ∧ entry.expiry ≤ latest
  kept : ∀ ip s, (ip, s) ∈ history → s + bl.banDuration ≤ latest → Kept latest now bl history ip s

section Operations

variable {latest now now' : Instant} {bl : BanList} {history : List (IpAddr × Instant)}

theorem mem_others {history : List (IpAddr × Instant)} {ip other : IpAddr} {s t : Instant}
    (among : (other, t) ∈ history) (apart : other ≠ ip) (later : s ≤ t) : other ∈ others history ip s := by
  refine List.mem_toFinset.mpr (List.mem_map.mpr ⟨(other, t), List.mem_filter.mpr ⟨among, ?_⟩, rfl⟩)
  exact decide_eq_true ⟨apart, later⟩

theorem others_mono {history more : List (IpAddr × Instant)} (sub : history ⊆ more) (ip : IpAddr) (s : Instant) :
    others history ip s ⊆ others more ip s := by
  intro other among
  obtain ⟨⟨who, time⟩, member, rfl⟩ := List.mem_map.mp (List.mem_toFinset.mp among)
  obtain ⟨member, counted⟩ := List.mem_filter.mp member
  obtain ⟨apart, later⟩ := of_decide_eq_true counted
  exact mem_others (sub member) apart later

theorem returned_subset_append (latest : Instant) (duration : Nat) (history more : List (IpAddr × Instant)) :
    returned latest duration history ⊆ returned latest duration (history ++ more) := by
  unfold returned
  rw [List.filter_append]
  exact List.subset_append_left _ _

/-- The last call counts whether or not it returned. -/
theorem Displaced.of_last {duration maxEntries : Nat} {ip : IpAddr} {s : Instant} {last : IpAddr × Instant}
    (enough : maxEntries ≤ (others (returned latest duration history ++ [last]) ip s).card) :
    Displaced latest duration maxEntries (history ++ [last]) ip s := by
  refine ⟨some last, fun ban isLast => ?_, enough.trans (Finset.card_le_card (others_mono ?_ ip s))⟩
  · rw [← Option.some.inj isLast]
    exact List.mem_append_right _ (List.mem_singleton_self _)
  · refine List.append_subset.mpr ⟨?_, List.subset_append_right _ _⟩
    exact List.Subset.trans (returned_subset_append latest duration history [last]) (List.subset_append_left _ _)

theorem Displaced.grow {duration maxEntries : Nat} {ip : IpAddr} {s : Instant}
    (displaced : Displaced latest duration maxEntries history ip s) (more : List (IpAddr × Instant)) :
    Displaced latest duration maxEntries (history ++ more) ip s := by
  obtain ⟨last, among, enough⟩ := displaced
  refine ⟨last, fun ban isLast => List.mem_append_left _ (among ban isLast), enough.trans (Finset.card_le_card ?_)⟩
  refine others_mono (List.append_subset.mpr ⟨?_, List.subset_append_right _ _⟩) ip s
  exact List.Subset.trans (returned_subset_append latest duration history more) (List.subset_append_left _ _)

theorem Kept.grow {ip : IpAddr} {s : Instant} (kept : Kept latest now bl history ip s) (le : now ≤ now')
    (more : List (IpAddr × Instant)) : Kept latest now' bl (history ++ more) ip s := by
  rcases kept with held | expired | room
  · exact .inl held
  · exact .inr (.inl (expired.trans le))
  · exact .inr (.inr (room.grow more))

/-- An operation that only removes entries, and those that have expired. -/
structure Drops (now : Instant) (bl bl' : BanList) : Prop where
  duration : bl'.banDuration = bl.banDuration
  capacity : bl'.maxEntries = bl.maxEntries
  fewer : bl'.entries.keys.length ≤ bl.entries.keys.length
  still : ∀ ip entry, bl.entries.lookup ip = some entry → bl'.entries.lookup ip = some entry ∨ entry.expiry ≤ now
  only : ∀ ip entry, bl'.entries.lookup ip = some entry → bl.entries.lookup ip = some entry

theorem Drops.refl (now : Instant) (bl : BanList) : Drops now bl bl :=
  ⟨rfl, rfl, le_rfl, fun _ _ found => .inl found, fun _ _ found => found⟩

theorem Drops.mono {bl' : BanList} (drops : Drops now bl bl') (le : now ≤ now') : Drops now' bl bl' :=
  { drops with still := fun ip entry found => (drops.still ip entry found).imp_right (·.trans le) }

theorem Drops.trans {bl' bl'' : BanList} (first : Drops now bl bl') (second : Drops now bl' bl'') : Drops now bl bl'' where
  duration := second.duration.trans first.duration
  capacity := second.capacity.trans first.capacity
  fewer := second.fewer.trans first.fewer
  still := by
    intro ip entry found
    rcases first.still ip entry found with held | expired
    · exact second.still ip entry held
    · exact .inr expired
  only := fun ip entry found => first.only ip entry (second.only ip entry found)

theorem prune_drops (bl : BanList) (now : Instant) : Drops now bl (bl.prune now) where
  duration := rfl
  capacity := rfl
  fewer := length_retain_le _ _
  still := by
    intro ip entry found
    by_cases live : now < entry.expiry
    · refine .inl ?_
      rw [prune, lookup_retain, found]
      exact Option.filter_eq_some_iff.mpr ⟨rfl, decide_eq_true live⟩
    · exact .inr (not_lt.mp live)
  only := by
    intro ip entry found
    rw [prune, lookup_retain] at found
    exact (Option.filter_eq_some_iff.mp found).1

theorem isBanned_drops (bl : BanList) (ip : IpAddr) (first second : Instant) :
    Drops second bl (bl.isBanned first second ip).2 := by
  unfold isBanned
  split
  · exact Drops.refl second bl
  · rename_i entry found
    split
    · exact Drops.refl second bl
    · split
      · rename_i expired
        refine ⟨rfl, rfl, ?_, ?_, ?_⟩
        · rw [AList.keys_erase]
          exact List.length_erase_le
        · intro other entry' found'
          by_cases same : other = ip
          · subst same
            rw [found, Option.some.injEq] at found'
            subst found'
            exact .inr expired
          · exact .inl (lookup_erase_eq_some.mpr ⟨same, found'⟩)
        · exact fun other entry' found' => (lookup_erase_eq_some.mp found').2
      · exact Drops.refl second bl

theorem Tracks.drops {bl' : BanList} (tracks : Tracks latest now bl history) (le : now ≤ now') (drops : Drops now' bl bl') :
    Tracks latest now' bl' history where
  bounded := by
    rw [drops.capacity]
    exact drops.fewer.trans tracks.bounded
  past := fun ban among => (tracks.past ban among).trans le
  real := by
    intro ip entry found
    rw [drops.duration]
    exact tracks.real ip entry (drops.only ip entry found)
  kept := by
    intro ip s among returned
    unfold Kept
    rw [drops.duration, drops.capacity] at *
    rcases tracks.kept ip s among returned with ⟨entry, found, expiry⟩ | expired | room
    · rcases drops.still ip entry found with still | gone
      · exact .inl ⟨entry, still, expiry⟩
      · exact .inr (.inl (expiry.trans gone))
    · exact .inr (.inl (expired.trans le))
    · exact .inr (.inr room)

/-! ### A ban -/

theorem victim_some {rank : IpAddr → Nat} {ip : IpAddr} (chosen : bl.victim rank = some ip) :
    ∃ entry, bl.entries.lookup ip = some entry ∧
      ∀ other entry', bl.entries.lookup other = some entry' → entry.expiry ≤ entry'.expiry := by
  obtain ⟨⟨_, entry⟩, found, rfl⟩ := Option.map_eq_some_iff.mp chosen
  obtain ⟨member, least⟩ := minByKey_spec found
  refine ⟨entry, AList.mem_lookup_iff.mpr ((List.mem_insertionSort _).mp member), fun other entry' held => ?_⟩
  exact least ⟨other, entry'⟩ ((List.mem_insertionSort _).mpr (AList.mem_lookup_iff.mp held))

theorem victim_none {rank : IpAddr → Nat} (nobody : bl.victim rank = none) : bl.entries.keys.length = 0 := by
  have empty := minByKey_eq_none.mp (Option.map_eq_none_iff.mp nobody)
  have size := List.length_insertionSort (fun a b => rank a.1 ≤ rank b.1) bl.entries.entries
  rw [empty] at size
  rw [AList.keys, List.keys, List.length_map]
  exact size.symm

/-- Everyone in a full list was banned no earlier than the victim, and so is the new address. -/
theorem full_others {ip victim : IpAddr} {s : Instant} {entry : BanEntry} (tracks : Tracks latest now bl history)
    (absent : ip ∉ bl.entries) (found : bl.entries.lookup victim = some entry)
    (least : ∀ other entry', bl.entries.lookup other = some entry' → entry.expiry ≤ entry'.expiry)
    (expiry : s + bl.banDuration ≤ entry.expiry) (before : s ≤ now') :
    bl.entries.keys.length ≤ (others (returned latest bl.banDuration history ++ [(ip, now')]) victim s).card := by
  have present : victim ∈ bl.entries.keys := AList.lookup_isSome.mp (by rw [found]; rfl)
  have nodup : (ip :: bl.entries.keys.erase victim).Nodup := by
    refine List.nodup_cons.mpr ⟨fun among => absent ?_, bl.entries.keys_nodup.erase victim⟩
    exact List.mem_of_mem_erase among
  have size : (ip :: bl.entries.keys.erase victim).length = bl.entries.keys.length := by
    have some : 0 < bl.entries.keys.length := List.length_pos_of_mem present
    rw [List.length_cons, List.length_erase_of_mem present]
    omega
  rw [← size, ← List.toFinset_card_of_nodup nodup]
  refine Finset.card_le_card fun other among => ?_
  rcases List.mem_cons.mp (List.mem_toFinset.mp among) with rfl | old
  · refine mem_others (List.mem_append_right _ (List.mem_singleton_self _)) ?_ before
    rintro rfl
    exact absent present
  · obtain ⟨apart, held⟩ := (bl.entries.keys_nodup.mem_erase_iff).mp old
    obtain ⟨entry', found'⟩ := Option.isSome_iff_exists.mp (AList.lookup_isSome.mpr held)
    obtain ⟨t, banned, expires, fits⟩ := tracks.real other entry' found'
    have ordered := least other entry' found'
    rw [expires] at ordered fits
    refine mem_others (List.mem_append_left _ (List.mem_filter.mpr ⟨banned, decide_eq_true fits⟩)) apart ?_
    exact le_of_add_le_add_right (expiry.trans ordered)

/-- What making room leaves: a place for the address, and of the earlier bans what the invariant says of them. -/
structure Room (latest now : Instant) (bl : BanList) (history : List (IpAddr × Instant)) (ip : IpAddr)
    (room : BanList) : Prop where
  duration : room.banDuration = bl.banDuration
  capacity : room.maxEntries = bl.maxEntries
  bounded : room.entries.keys.length ≤ room.maxEntries
  place : ip ∈ room.entries ∨ room.entries.keys.length < room.maxEntries
  only : ∀ other entry, room.entries.lookup other = some entry → bl.entries.lookup other = some entry
  kept : ∀ other s, (other, s) ∈ history → s + bl.banDuration ≤ latest →
    Kept latest now room (history ++ [(ip, now)]) other s

/-- Nothing has to leave a list that has a place. -/
theorem Tracks.room {ip : IpAddr} (tracks : Tracks latest now bl history) (le : now ≤ now')
    (place : ip ∈ bl.entries ∨ bl.entries.keys.length < bl.maxEntries) : Room latest now' bl history ip bl where
  duration := rfl
  capacity := rfl
  bounded := tracks.bounded
  place := place
  only := fun _ _ found => found
  kept := fun other s among returned => (tracks.kept other s among returned).grow le _

theorem Tracks.evict {rank : IpAddr → Nat} {ip victim : IpAddr} (tracks : Tracks latest now bl history) (le : now ≤ now')
    (absent : ip ∉ bl.entries) (full : bl.maxEntries ≤ bl.entries.keys.length) (chosen : bl.victim rank = some victim) :
    Room latest now' bl history ip { bl with entries := bl.entries.erase victim } := by
  obtain ⟨entry, found, least⟩ := victim_some chosen
  have present : victim ∈ bl.entries.keys := AList.lookup_isSome.mp (by rw [found]; rfl)
  have shorter : (bl.entries.erase victim).keys.length < bl.maxEntries := by
    have bounded := tracks.bounded
    have positive := List.length_pos_of_mem present
    rw [AList.keys_erase, List.length_erase_of_mem present]
    omega
  refine ⟨rfl, rfl, shorter.le, .inr shorter, fun other entry' found' => (lookup_erase_eq_some.mp found').2, ?_⟩
  intro other s among returned
  rcases (tracks.kept other s among returned).grow le [(ip, now')] with ⟨entry', found', expiry⟩ | expired | room
  · by_cases same : other = victim
    · subst same
      rw [found, Option.some.injEq] at found'
      subst found'
      have before : s ≤ now' := (tracks.past _ among).trans le
      exact .inr (.inr (.of_last (full.trans (full_others tracks absent found least expiry before))))
    · exact .inl ⟨entry', lookup_erase_eq_some.mpr ⟨same, found'⟩, expiry⟩
  · exact .inr (.inl expired)
  · exact .inr (.inr room)

theorem Room.of_drops {ip : IpAddr} {bl' room : BanList} (made : Room latest now' bl' history ip room)
    (drops : Drops now bl bl') : Room latest now' bl history ip room where
  duration := made.duration.trans drops.duration
  capacity := made.capacity.trans drops.capacity
  bounded := made.bounded
  place := made.place
  only := fun other entry found => drops.only other entry (made.only other entry found)
  kept := by
    intro other s among returned
    rw [← drops.duration] at returned
    exact made.kept other s among returned

theorem makeRoom_room {rank : IpAddr → Nat} {pruneAt : Instant} {ip : IpAddr} (tracks : Tracks latest now bl history)
    (some : 1 ≤ bl.maxEntries) (le : now ≤ pruneAt) (le' : pruneAt ≤ now') :
    Room latest now' bl history ip (bl.makeRoom rank pruneAt ip) := by
  unfold makeRoom
  split
  · rename_i full
    have drops := prune_drops bl pruneAt
    have pruned : Tracks latest pruneAt (bl.prune pruneAt) history := tracks.drops le drops
    dsimp only
    split
    · rename_i still
      have absent : ip ∉ (bl.prune pruneAt).entries := by
        intro among
        obtain ⟨entry, found⟩ := Option.isSome_iff_exists.mp (AList.lookup_isSome.mpr among)
        exact full.2 (AList.lookup_isSome.mp (by rw [drops.only ip entry found]; rfl))
      cases chosen : (bl.prune pruneAt).victim rank with
      | none =>
        -- a full list has somebody in it
        have nobody := victim_none chosen
        have capacity : 1 ≤ (bl.prune pruneAt).maxEntries := some
        omega
      | some victim => exact (pruned.evict le' absent still chosen).of_drops drops
    · rename_i space
      exact (pruned.room le' (.inr (Nat.not_le.mp space))).of_drops drops
  · rename_i fits
    refine tracks.room (le.trans le') ?_
    by_cases among : ip ∈ bl.entries
    · exact .inl among
    · exact .inr (Nat.not_le.mp fun many => fits ⟨many, among⟩)

theorem Tracks.past_concat (tracks : Tracks latest now bl history) (le : now ≤ now') (ip : IpAddr) :
    ∀ ban ∈ history ++ [(ip, now')], ban.2 ≤ now' := by
  intro ban among
  rcases List.mem_append.mp among with old | new
  · exact (tracks.past ban old).trans le
  · rw [List.mem_singleton.mp new]

theorem Room.real {ip : IpAddr} {room : BanList} (made : Room latest now' bl history ip room)
    (tracks : Tracks latest now bl history) :
    ∀ other entry, room.entries.lookup other = some entry →
      ∃ s, (other, s) ∈ history ++ [(ip, now')] ∧ entry.expiry = s + room.banDuration ∧ entry.expiry ≤ latest := by
  intro other entry found
  obtain ⟨s, among, expiry, returned⟩ := tracks.real other entry (made.only other entry found)
  exact ⟨s, List.mem_append_left _ among, by rw [made.duration, expiry], returned⟩

theorem Room.tracks {ip : IpAddr} {room : BanList} (made : Room latest now' bl history ip room)
    (tracks : Tracks latest now bl history) (le : now ≤ now') (failed : ¬ now' + bl.banDuration ≤ latest) :
    Tracks latest now' room (history ++ [(ip, now')]) where
  bounded := made.bounded
  past := tracks.past_concat le ip
  real := made.real tracks
  kept := by
    intro other s among returned
    rw [made.duration] at returned
    rcases List.mem_append.mp among with old | new
    · exact made.kept other s old returned
    · obtain ⟨rfl, rfl⟩ := Prod.mk.inj (List.mem_singleton.mp new)
      exact absurd returned failed

theorem Room.insert {ip : IpAddr} {room : BanList} (made : Room latest now' bl history ip room)
    (tracks : Tracks latest now bl history) (le : now ≤ now') (returned : now' + bl.banDuration ≤ latest) (reason : String) :
    Tracks latest now' { room with entries := room.entries.insert ip { expiry := now' + bl.banDuration, reason } }
      (history ++ [(ip, now')]) where
  bounded := by
    have bounded := made.bounded
    have positions := made.place
    dsimp only
    rw [AList.keys_insert, List.length_cons]
    rcases positions with present | space
    · have positive := List.length_pos_of_mem present
      rw [List.length_erase_of_mem present]
      omega
    · have shorter : (room.entries.keys.erase ip).length ≤ room.entries.keys.length := List.length_erase_le
      omega
  past := tracks.past_concat le ip
  real := by
    intro other entry found
    dsimp only at found ⊢
    by_cases same : other = ip
    · subst same
      rw [AList.lookup_insert, Option.some.injEq] at found
      subst found
      exact ⟨now', List.mem_append_right _ (List.mem_singleton_self _), by rw [made.duration], returned⟩
    · rw [AList.lookup_insert_ne same] at found
      exact made.real tracks other entry found
  kept := by
    intro other s among returned
    have before : s ≤ now' := tracks.past_concat le ip _ among
    unfold Kept
    dsimp only at returned ⊢
    rw [made.duration] at returned ⊢
    by_cases same : other = ip
    · subst same
      exact .inl ⟨_, AList.lookup_insert room.entries, Int.add_le_add_right before _⟩
    · have old : (other, s) ∈ history := by
        rcases List.mem_append.mp among with old | new
        · exact old
        · exact absurd (Prod.mk.inj (List.mem_singleton.mp new)).1 same
      rcases made.kept other s old returned with ⟨entry, found, expiry⟩ | expired | room
      · rw [made.duration] at expiry
        exact .inl ⟨entry, by rw [AList.lookup_insert_ne same]; exact found, expiry⟩
      · rw [made.duration] at expired
        exact .inr (.inl expired)
      · rw [made.duration] at room
        exact .inr (.inr room)

theorem Tracks.ban {rank : IpAddr → Nat} {pruneAt : Instant} {ip : IpAddr} {reason : String}
    (tracks : Tracks latest now bl history) (some : 1 ≤ bl.maxEntries) (le : now ≤ pruneAt) (le' : pruneAt ≤ now') :
    Tracks latest now' (bl.ban latest rank pruneAt now' ip reason).2 (history ++ [(ip, now')]) := by
  have made : Room latest now' bl history ip (bl.makeRoom rank pruneAt ip) := makeRoom_room tracks some le le'
  unfold BanList.ban checkedAdd
  dsimp only
  by_cases fits : now' + bl.banDuration ≤ latest
  · rw [if_pos fits]
    exact made.insert tracks (le.trans le') fits reason
  · rw [if_neg fits]
    exact made.tracks tracks (le.trans le') fits

end Operations

/-! ### Over a sequence of calls -/

section Run

variable {latest t : Instant} {bl : BanList} {history : List (IpAddr × Instant)}

theorem makeRoom_limits (rank : IpAddr → Nat) (bl : BanList) (pruneAt : Instant) (ip : IpAddr) :
    (bl.makeRoom rank pruneAt ip).banDuration = bl.banDuration ∧ (bl.makeRoom rank pruneAt ip).maxEntries = bl.maxEntries := by
  unfold makeRoom
  split
  · dsimp only
    split
    · split
      · exact ⟨rfl, rfl⟩
      · exact ⟨rfl, rfl⟩
    · exact ⟨rfl, rfl⟩
  · exact ⟨rfl, rfl⟩

theorem apply_limits (latest : Instant) (bl : BanList) (call : Call) :
    (bl.apply latest call).banDuration = bl.banDuration ∧ (bl.apply latest call).maxEntries = bl.maxEntries := by
  cases call with
  | ban ip reason pruneAt now rank =>
    have limits := makeRoom_limits rank bl pruneAt ip
    unfold apply ban
    dsimp only
    split
    · exact limits
    · exact limits
  | isBanned ip first second =>
    have drops := isBanned_drops bl ip first second
    exact ⟨drops.duration, drops.capacity⟩
  | prune now => exact ⟨rfl, rfl⟩

theorem run_limits (latest : Instant) (bl : BanList) (calls : List Call) :
    (bl.run latest calls).banDuration = bl.banDuration ∧ (bl.run latest calls).maxEntries = bl.maxEntries := by
  induction calls generalizing bl with
  | nil => exact ⟨rfl, rfl⟩
  | cons call calls ih =>
    obtain ⟨duration, capacity⟩ := apply_limits latest bl call
    obtain ⟨later, kept⟩ := ih (bl.apply latest call)
    exact ⟨later.trans duration, kept.trans capacity⟩

/-- One call, from its first reading of the clock to its last. -/
theorem Tracks.apply {call : Call} (tracks : ∀ r ∈ call.readings.head?, Tracks latest r bl history) (some : 1 ≤ bl.maxEntries)
    (ordered : call.readings.Pairwise (· ≤ ·)) :
    ∀ r ∈ call.readings.getLast?, Tracks latest r (bl.apply latest call) (history ++ call.banned.toList) := by
  intro r last
  cases call with
  | ban ip reason pruneAt now rank =>
    obtain rfl : now = r := Option.some.inj last
    have le : pruneAt ≤ now := (List.pairwise_cons.mp ordered).1 now (List.mem_singleton_self now)
    exact (tracks pruneAt rfl).ban some le_rfl le
  | isBanned ip first second =>
    obtain rfl : second = r := Option.some.inj last
    have le : first ≤ second := (List.pairwise_cons.mp ordered).1 second (List.mem_singleton_self second)
    have after := (tracks first rfl).drops le (isBanned_drops bl ip first second)
    rwa [← List.append_nil history] at after
  | prune now =>
    obtain rfl : now = r := Option.some.inj last
    have after := (tracks now rfl).drops le_rfl (prune_drops bl now)
    rwa [← List.append_nil history] at after

theorem tracks_new (latest t : Instant) (banDurationSecs : UInt64) (maxEntries : Nat) :
    Tracks latest t (withCapacityLimit banDurationSecs maxEntries) [] where
  bounded := Nat.zero_le _
  past := List.forall_mem_nil _
  real := by
    intro ip entry found
    rw [withCapacityLimit, AList.lookup_empty] at found
    cases found
  kept := fun _ _ among => absurd among List.not_mem_nil

theorem bans_append (calls more : List Call) : bans (calls ++ more) = bans calls ++ bans more := List.filterMap_append

/-- By induction on the calls, each from the state at its first reading. -/
theorem tracks_run {banDurationSecs : UInt64} {maxEntries : Nat} {calls : List Call} (some : 1 ≤ maxEntries)
    (ordered : Ordered calls) (after : ∀ r ∈ calls.flatMap Call.readings, r ≤ t) :
    Tracks latest t ((withCapacityLimit banDurationSecs maxEntries).run latest calls) (bans calls) := by
  induction calls using List.reverseRecOn generalizing t with
  | nil => exact tracks_new latest t banDurationSecs maxEntries
  | append_singleton calls call ih =>
    unfold Ordered at ordered
    rw [List.flatMap_append, List.flatMap_singleton, List.pairwise_append] at ordered
    rw [List.flatMap_append, List.flatMap_singleton] at after
    obtain ⟨earlier, within, between⟩ := ordered
    have capacity := (run_limits latest (withCapacityLimit banDurationSecs maxEntries) calls).2
    have before : ∀ r ∈ call.readings.head?,
        Tracks latest r ((withCapacityLimit banDurationSecs maxEntries).run latest calls) (bans calls) := by
      intro r first
      exact ih earlier fun r' among => between r' among r (List.mem_of_mem_head? first)
    have step := Tracks.apply before (by rw [capacity]; exact some) within
    have last : ∃ r, r ∈ call.readings.getLast? := by
      cases call with
      | ban ip reason pruneAt now rank => exact ⟨now, rfl⟩
      | isBanned ip first second => exact ⟨second, rfl⟩
      | prune now => exact ⟨now, rfl⟩
    obtain ⟨r, last⟩ := last
    have le : r ≤ t := after r (List.mem_append_right _ (List.mem_of_mem_getLast? last))
    have whole : (withCapacityLimit banDurationSecs maxEntries).run latest (calls ++ [call]) =
        ((withCapacityLimit banDurationSecs maxEntries).run latest calls).apply latest call := by
      unfold run
      rw [List.foldl_append]
      rfl
    have history : bans (calls ++ [call]) = bans calls ++ call.banned.toList := by
      rw [bans_append]
      cases call with
      | ban ip reason pruneAt now rank => rfl
      | isBanned ip first second => rfl
      | prune now => rfl
    rw [whole, history]
    exact (step r last).drops le (Drops.refl t _)

/-! ### Answers -/

theorem isBanned_iff (bl : BanList) (first second : Instant) (ip : IpAddr) :
    (bl.isBanned first second ip).1 = true ↔ ∃ entry, bl.entries.lookup ip = some entry ∧ first < entry.expiry := by
  unfold isBanned
  split
  · rename_i absent
    rw [absent]
    simp
  · rename_i entry found
    rw [found]
    split
    · rename_i live
      simp [live]
    · rename_i expired
      split <;> simp [expired]

theorem Tracks.banned {first second : Instant} {ip : IpAddr} (tracks : Tracks latest first bl history)
    (yes : (bl.isBanned first second ip).1 = true) :
    ∃ s, (ip, s) ∈ history ∧ s + bl.banDuration ≤ latest ∧ s ≤ first ∧ first < s + bl.banDuration := by
  obtain ⟨entry, found, live⟩ := (isBanned_iff bl first second ip).mp yes
  obtain ⟨s, among, expiry, returned⟩ := tracks.real ip entry found
  exact ⟨s, among, expiry ▸ returned, tracks.past _ among, expiry ▸ live⟩

theorem Tracks.lost {first second : Instant} {ip : IpAddr} {s : Instant} (tracks : Tracks latest first bl history)
    (among : (ip, s) ∈ history) (returned : s + bl.banDuration ≤ latest) (live : first < s + bl.banDuration)
    (no : (bl.isBanned first second ip).1 = false) : Displaced latest bl.banDuration bl.maxEntries history ip s := by
  rcases tracks.kept ip s among returned with ⟨entry, found, expiry⟩ | expired | room
  · have yes := (isBanned_iff bl first second ip).mpr ⟨entry, found, lt_of_lt_of_le live expiry⟩
    rw [no] at yes
    cases yes
  · exact absurd live (not_lt.mpr expired)
  · exact room

/-- Calls other than bans only remove what has expired. -/
theorem run_drops {calls : List Call} (quiet : ∀ call ∈ calls, call.banned = none)
    (before : ∀ r ∈ calls.flatMap Call.readings, r ≤ t) : Drops t bl (bl.run latest calls) := by
  induction calls generalizing bl with
  | nil => exact Drops.refl t bl
  | cons call calls ih =>
    rw [List.flatMap_cons] at before
    have first : Drops t bl (bl.apply latest call) := by
      cases call with
      | ban ip reason pruneAt now rank => cases quiet _ List.mem_cons_self
      | isBanned ip first second =>
        refine (isBanned_drops bl ip first second).mono (before second ?_)
        exact List.mem_append_left _ (List.mem_cons_of_mem _ (List.mem_singleton_self _))
      | prune now =>
        exact (prune_drops bl now).mono (before now (List.mem_append_left _ (List.mem_singleton_self _)))
    refine first.trans (ih ?_ ?_)
    · exact fun other among => quiet other (List.mem_cons_of_mem _ among)
    · exact fun r among => before r (List.mem_append_right _ among)

theorem ban_found {rank : IpAddr → Nat} {pruneAt now : Instant} {ip : IpAddr} {reason : String}
    (returned : now + bl.banDuration ≤ latest) :
    (bl.ban latest rank pruneAt now ip reason).2.entries.lookup ip = some { expiry := now + bl.banDuration, reason } := by
  unfold ban checkedAdd
  rw [if_pos returned]
  exact AList.lookup_insert _

/-- The answer about an address whose ban is the last one. -/
theorem isBanned_after {rank : IpAddr → Nat} {pruneAt now first second : Instant} {ip : IpAddr} {reason : String}
    {calls : List Call} (returned : now + bl.banDuration ≤ latest) (quiet : ∀ call ∈ calls, call.banned = none)
    (before : ∀ r ∈ calls.flatMap Call.readings, r ≤ first) :
    ((((bl.ban latest rank pruneAt now ip reason).2).run latest calls).isBanned first second ip).1 =
      decide (first < now + bl.banDuration) := by
  have drops : Drops first (bl.ban latest rank pruneAt now ip reason).2
    ((bl.ban latest rank pruneAt now ip reason).2.run latest calls) := run_drops quiet before
  have found := @ban_found latest bl rank pruneAt now ip reason returned
  rw [Bool.eq_iff_iff, isBanned_iff, decide_eq_true_iff]
  constructor
  · rintro ⟨entry, held, live⟩
    have same := drops.only ip entry held
    rw [found, Option.some.injEq] at same
    rwa [← same] at live
  · intro live
    rcases drops.still ip _ found with held | expired
    · exact ⟨_, held, live⟩
    · exact absurd live (not_lt.mpr expired)

theorem exists_bound (times : List Int) : ∃ t, ∀ r ∈ times, r ≤ t := by
  induction times with
  | nil => exact ⟨0, List.forall_mem_nil _⟩
  | cons r times ih =>
    obtain ⟨t, bound⟩ := ih
    refine ⟨max r t, List.forall_mem_cons.mpr ⟨le_max_left r t, fun r' among => ?_⟩⟩
    exact (bound r' among).trans (le_max_right r t)

end Run

/-- For any calls on a clock that does not go back. A ban is in force when it returned: its expiry does not lie beyond the
last instant of the platform, where the call panics. -/
theorem bans_stay_in_force (latest : Instant) (banDurationSecs : UInt64) {maxEntries : Nat} (some : 1 ≤ maxEntries)
    {calls : List Call} (ordered : Ordered calls) :
    let bl := (withCapacityLimit banDurationSecs maxEntries).run latest calls
    let duration : Int := secs banDurationSecs.toNat
    bl.entries.keys.length ≤ maxEntries ∧
    ∀ ip first second, Ordered (calls ++ [.isBanned ip first second]) →
      ((bl.isBanned first second ip).1 = true →
        ∃ s, (ip, s) ∈ bans calls ∧ s + duration ≤ latest ∧ s ≤ first ∧ first < s + duration) ∧
      (banDurationSecs = 0 → (bl.isBanned first second ip).1 = false) ∧
      (∀ before reason pruneAt s rank later, calls = before ++ .ban ip reason pruneAt s rank :: later →
        (∀ call ∈ later, call.banned = none) → s + duration ≤ latest →
        (bl.isBanned first second ip).1 = decide (first < s + duration)) ∧
      ∀ s, (ip, s) ∈ bans calls → s + duration ≤ latest → first < s + duration →
        (bl.isBanned first second ip).1 = false →
          Displaced latest (secs banDurationSecs.toNat) maxEntries (bans calls) ip s := by
  intro bl duration
  obtain ⟨lasting, capacity⟩ := run_limits latest (withCapacityLimit banDurationSecs maxEntries) calls
  have lasting : (bl.banDuration : Int) = duration := congrArg Int.ofNat lasting
  obtain ⟨t, bound⟩ := exists_bound (calls.flatMap Call.readings)
  have bounded := (@tracks_run latest t banDurationSecs maxEntries calls some ordered bound).bounded
  refine ⟨bounded.trans_eq capacity, fun ip first second asked => ?_⟩
  unfold Ordered at asked
  rw [List.flatMap_append, List.flatMap_singleton, List.pairwise_append] at asked
  have past : ∀ r ∈ calls.flatMap Call.readings, r ≤ first := fun r among => asked.2.2 r among first List.mem_cons_self
  have tracks : Tracks latest first bl (bans calls) := tracks_run some ordered past
  have banned : (bl.isBanned first second ip).1 = true →
      ∃ s, (ip, s) ∈ bans calls ∧ s + duration ≤ latest ∧ s ≤ first ∧ first < s + duration := by
    intro yes
    have ban := tracks.banned yes
    rwa [lasting] at ban
  refine ⟨banned, fun zero => ?_, fun before reason pruneAt s rank later split quiet returned => ?_,
    fun s among returned live no => ?_⟩
  · by_contra yes
    obtain ⟨s, -, -, le, lt⟩ := banned (Bool.eq_true_of_not_eq_false yes)
    have nothing : duration = 0 := by rw [show duration = (secs banDurationSecs.toNat : Int) from rfl, zero]; rfl
    rw [nothing, add_zero] at lt
    exact absurd le (not_le.mpr lt)
  · let start := (withCapacityLimit banDurationSecs maxEntries).run latest before
    have long : (start.banDuration : Int) = duration :=
      congrArg Int.ofNat (run_limits latest (withCapacityLimit banDurationSecs maxEntries) before).1
    have since : ∀ r ∈ later.flatMap Call.readings, r ≤ first := by
      intro r among
      refine past r ?_
      rw [split, List.flatMap_append, List.flatMap_cons]
      exact List.mem_append_right _ (List.mem_append_right _ among)
    have whole : bl = (start.ban latest rank pruneAt s ip reason).2.run latest later := by
      dsimp only [bl, start]
      rw [split, run, List.foldl_append]
      rfl
    have answer := @isBanned_after latest start rank pruneAt s first second ip reason later (by rw [long]; exact returned)
      quiet since
    rw [long] at answer
    rw [whole]
    exact answer
  · have lost : Displaced latest bl.banDuration bl.maxEntries (bans calls) ip s :=
      tracks.lost among (by rw [lasting]; exact returned) (by rw [lasting]; exact live) no
    rwa [capacity, Int.ofNat.inj lasting] at lost

/-- Four bans on a list of three, one nanosecond apart. -/
def fourBans : List Call :=
  [.ban (.v6 0) "test" 0 0 fun _ => 0, .ban (.v6 1) "test" 1 1 fun _ => 0, .ban (.v6 2) "test" 2 2 fun _ => 0,
    .ban (.v6 42) "test" 3 3 fun _ => 0]

theorem bans_stay_in_force_four :
    let bl := (withCapacityLimit 600 3).run (2 ^ 63) fourBans
    (bl.isBanned 4 4 (.v6 42)).1 = true ∧ (bl.isBanned 4 4 (.v6 0)).1 = false ∧
      Displaced (2 ^ 63) (secs 600) 3 (bans fourBans) (.v6 0) 0 := by
  intro bl
  have forced := @bans_stay_in_force (2 ^ 63) 600 3 (by decide) fourBans (by decide)
  have newest := (forced.2 (.v6 42) 4 4 (by decide)).2.2.1 (fourBans.take 3) "test" 3 3 (fun _ => 0) [] rfl
    (List.forall_mem_nil _) (by decide)
  have lost : (bl.isBanned 4 4 (.v6 0)).1 = false := by decide +kernel
  refine ⟨newest.trans (by decide), lost, ?_⟩
  exact (forced.2 (.v6 0) 4 4 (by decide)).2.2.2 0 (by decide) (by decide) (by decide) lost

end BanList

end SoloPool
