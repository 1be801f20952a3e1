import SoloPool.Lib.Bytes

/-!
# Readers of byte strings

A reader takes a value off the front of a byte string. `Reads read bytes a` says that it reads `a` off `bytes`,
whatever follows them; the rules build readings of records from readings of their fields.
-/

namespace SoloPool.Lib

abbrev Reader (α : Type) := StateT Bytes Option α

def Reads {α : Type} (read : Reader α) (bytes : Bytes) (a : α) : Prop := ∀ rest, read.run (bytes ++ rest) = some (a, rest)

def readOctets (n : Nat) : Reader (Octets n) := fun bytes =>
  if enough : n ≤ bytes.length then some (⟨bytes.take n, by simpa using enough⟩, bytes.drop n) else none

def readLe (width : Nat) : Reader Nat := do
  let bytes ← readOctets width
  return leNat bytes.toList

def readBytes (n : Nat) : Reader Bytes := do
  let bytes ← readOctets n
  return bytes.toList

def readMany {α : Type} (read : Reader α) : Nat → Reader (List α)
  | 0 => return []
  | n + 1 => do
    let a ← read
    let rest ← readMany read n
    return a :: rest

/-- The value of a byte string that is read to its end. -/
def readWhole {α : Type} (read : Reader α) (bytes : Bytes) : Option α :=
  match read.run bytes with
  | some (a, []) => some a
  | _ => none

namespace Reads

variable {α β : Type} {read : Reader α} {next : α → Reader β} {bytes more : Bytes} {a : α} {b : β}

theorem pure (a : α) : Reads (Pure.pure a) [] a := fun _ => rfl

theorem bind (first : Reads read bytes a) (second : Reads (next a) more b) : Reads (read >>= next) (bytes ++ more) b := by
  intro rest
  rw [List.append_assoc, StateT.run_bind, first]
  exact second rest

theorem map (first : Reads read bytes a) (f : α → β) : Reads (read >>= fun a => Pure.pure (f a)) bytes (f a) := by
  intro rest
  rw [StateT.run_bind, first]
  rfl

theorem octets {n : Nat} (a : Octets n) : Reads (readOctets n) a.toList a := by
  intro rest
  have enough : n ≤ (a.toList ++ rest).length := by simp
  have front : (a.toList ++ rest).take n = a.toList := List.take_left' a.length_toList
  have back : (a.toList ++ rest).drop n = rest := List.drop_left' a.length_toList
  change (if enough : n ≤ (a.toList ++ rest).length then _ else _) = _
  rw [dif_pos enough]
  simp only [front, back]

theorem bytes_of (bytes : Bytes) : Reads (readBytes bytes.length) bytes bytes :=
  (octets ⟨bytes, rfl⟩).map Octets.toList

theorem le {width n : Nat} (fits : n < 256 ^ width) : Reads (readLe width) (leBytes width n) n := by
  have value := (octets ⟨leBytes width n, length_leBytes width n⟩).map (fun bytes => leNat bytes.toList)
  rwa [leNat_leBytes_of_lt fits] at value

theorem byte {n : Nat} (fits : n < 256) : Reads (readLe 1) [UInt8.ofNat n] n := by
  have reads := le (show n < 256 ^ 1 by omega)
  rwa [leBytes_one] at reads

theorem many {encode : α → Bytes} {values : List α} (each : ∀ a ∈ values, Reads read (encode a) a) :
    Reads (readMany read values.length) (values.flatMap encode) values := by
  induction values with
  | nil => exact pure []
  | cons a rest ih =>
    have others := ih fun b among => each b (List.mem_cons_of_mem _ among)
    exact (each a List.mem_cons_self).bind (others.map (a :: ·))

theorem whole (reads : Reads read bytes a) : readWhole read bytes = some a := by
  have run := reads []
  rw [List.append_nil] at run
  unfold readWhole
  rw [run]

/-- What one reader reads off two byte strings is the same if one starts with the other. -/
theorem eq_of_starts {c : α} (first : Reads read bytes a) (second : Reads read more c) (starts : bytes <+: more) : a = c := by
  obtain ⟨rest, rfl⟩ := starts
  have both := second []
  rw [List.append_assoc, first] at both
  exact (Prod.mk.inj (Option.some.inj both)).1

end Reads

end SoloPool.Lib
