import SoloPool.Lib.Reader

/-!
# Streams of records

Records written one after the other on a stream that delivers its bytes in any pieces. `Delimits read bytes a` says that
`read` reads `a` off `bytes` whatever follows, and off no less. A reader of such records can take off what has arrived all
records that are complete, and is left with the beginning of the next.
-/

namespace SoloPool.Lib

theorem Reads.lift {α : Type} {x : Option α} {a : α} (known : x = some a) : Reads (StateT.lift x) [] a := by
  intro rest
  rw [known]
  rfl

structure Delimits {α : Type} (read : Reader α) (bytes : Bytes) (a : α) : Prop where
  reads : Reads read bytes a
  waits : ∀ part missing, part ++ missing = bytes → missing ≠ [] → read.run part = none

/-- The records complete in `bytes` and what is left over, with room for so many. -/
def readAvailable {α : Type} (read : Reader α) : Nat → Bytes → List α × Bytes
  | 0, bytes => ([], bytes)
  | fuel + 1, bytes =>
    match read.run bytes with
    | some (a, rest) => (a :: (readAvailable read fuel rest).1, (readAvailable read fuel rest).2)
    | none => ([], bytes)

namespace Delimits

variable {α β : Type} {read : Reader α} {next : α → Reader β} {bytes more : Bytes} {a : α} {b : β}

theorem lift {x : Option α} (known : x = some a) : Delimits (StateT.lift x) [] a where
  reads := .lift known
  waits := by
    intro part missing whole some
    exact absurd (List.append_eq_nil_iff.mp whole).2 some

theorem pure (a : α) : Delimits (Pure.pure a) [] a := lift rfl

theorem bind (first : Delimits read bytes a) (second : Delimits (next a) more b) :
    Delimits (read >>= next) (bytes ++ more) b where
  reads := first.reads.bind second.reads
  waits := by
    intro part missing whole some
    rw [StateT.run_bind]
    -- The part ends inside the first record or inside the second.
    rcases List.append_eq_append_iff.mp whole with ⟨tail, inside, rest⟩ | ⟨tail, rfl, rest⟩
    · by_cases done : tail = []
      · subst done
        rw [List.append_nil] at inside
        subst inside
        have whole := first.reads []
        rw [List.append_nil] at whole
        rw [whole]
        exact second.waits [] missing (by simpa using rest) some
      · rw [first.waits part tail inside.symm done]
        rfl
    · rw [first.reads tail]
      exact second.waits tail missing rest.symm some

theorem map (first : Delimits read bytes a) (f : α → β) :
    Delimits (read >>= fun a => Pure.pure (f a)) bytes (f a) := by
  have both : Delimits (read >>= fun a => Pure.pure (f a)) (bytes ++ []) (f a) := first.bind (pure (f a))
  rwa [List.append_nil] at both

theorem octets {n : Nat} (a : Octets n) : Delimits (readOctets n) a.toList a where
  reads := .octets a
  waits := by
    intro part missing whole some
    have short : ¬ n ≤ part.length := by
      have lengths := congrArg List.length whole
      rw [List.length_append, a.length_toList] at lengths
      have := List.length_pos_iff.mpr some
      omega
    exact dif_neg short

theorem bytes_of (bytes : Bytes) : Delimits (readBytes bytes.length) bytes bytes := (octets ⟨bytes, rfl⟩).map Octets.toList

theorem le {width n : Nat} (fits : n < 256 ^ width) : Delimits (readLe width) (leBytes width n) n := by
  have value := (octets ⟨leBytes width n, length_leBytes width n⟩).map (fun bytes => leNat bytes.toList)
  rwa [leNat_leBytes_of_lt fits] at value

end Delimits

/-- Wherever the stream is cut, the records read are those that have arrived whole, and the bytes left over are the
beginning of the next. -/
theorem readAvailable_cut {α : Type} {read : Reader α} {encode : α → Bytes} {values : List α}
    (each : ∀ a ∈ values, Delimits read (encode a) a ∧ encode a ≠ []) (stops : read.run [] = none) {fuel : Nat}
    {arrived : Bytes} (room : arrived.length ≤ fuel) (cut : arrived <+: values.flatMap encode) :
    ∃ done rest left, values = done ++ rest ∧ readAvailable read fuel arrived = (done, left) ∧
      arrived = done.flatMap encode ++ left ∧ (rest = [] → left = []) ∧
      ∀ a ∈ rest.head?, left <+: encode a ∧ left ≠ encode a := by
  induction values generalizing fuel arrived with
  | nil =>
    obtain rfl : arrived = [] := List.prefix_nil.mp cut
    refine ⟨[], [], [], rfl, ?_, rfl, fun _ => rfl, nofun⟩
    cases fuel with
    | zero => rfl
    | succ fuel => rw [readAvailable, stops]
  | cons a values ih =>
    obtain ⟨delimits, some⟩ := each a List.mem_cons_self
    obtain ⟨missing, whole⟩ := cut
    rw [List.flatMap_cons] at whole
    rcases List.append_eq_append_iff.mp whole with ⟨tail, inside, _⟩ | ⟨tail, rfl, rest⟩
    · by_cases done : tail = []
      · -- The first record has just arrived whole.
        subst done
        rw [List.append_nil] at inside
        subst inside
        obtain ⟨fuel, rfl⟩ : ∃ k, fuel = k + 1 := Nat.exists_eq_succ_of_ne_zero (by
          have := List.length_pos_iff.mpr some
          omega)
        have first := delimits.reads []
        rw [List.append_nil] at first
        obtain ⟨done, rest, left, split, read, arrived, ends, next⟩ :=
          ih (fun b among => each b (List.mem_cons_of_mem _ among)) (Nat.zero_le fuel) List.nil_prefix
        refine ⟨a :: done, rest, left, by rw [split]; rfl, ?_, ?_, ends, next⟩
        · rw [readAvailable, first]
          dsimp only
          rw [read]
        · rw [List.flatMap_cons, List.append_assoc, ← arrived, List.append_nil]
      · refine ⟨[], a :: values, arrived, rfl, ?_, rfl, nofun, ?_⟩
        · cases fuel with
          | zero => rfl
          | succ fuel => rw [readAvailable, delimits.waits arrived tail inside.symm done]
        · rintro _ ⟨⟩
          refine ⟨⟨tail, inside.symm⟩, ?_⟩
          intro same
          rw [same] at inside
          exact done (List.append_right_eq_self.mp inside.symm)
    · obtain ⟨fuel, rfl⟩ : ∃ k, fuel = k + 1 := Nat.exists_eq_succ_of_ne_zero (by
        have := List.length_pos_iff.mpr some
        rw [List.length_append] at room
        omega)
      have shorter : tail.length ≤ fuel := by
        have := List.length_pos_iff.mpr some
        rw [List.length_append] at room
        omega
      obtain ⟨done, rest, left, split, read, arrived, ends, next⟩ :=
        ih (fun b among => each b (List.mem_cons_of_mem _ among)) shorter ⟨missing, rest.symm⟩
      refine ⟨a :: done, rest, left, by rw [split]; rfl, ?_, ?_, ends, next⟩
      · rw [readAvailable, delimits.reads tail]
        dsimp only
        rw [read]
      · rw [List.flatMap_cons, List.append_assoc, ← arrived]

end SoloPool.Lib
