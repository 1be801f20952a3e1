import Mathlib.Data.List.DropRight
import Mathlib.Data.List.Infix

/-!
# Text as lists of characters

The string functions of the standard library that host names and addresses are taken apart with: splitting at the last
occurrence of a character or at a pattern, trimming a character at the end, and ASCII case.
-/

namespace SoloPool.Lib

/-- `rsplit_once(sep)`. -/
def rsplitOnce (sep : Char) (cs : List Char) : Option (List Char × List Char) :=
  match cs.reverse.dropWhile (· != sep) with
  | [] => none
  | _ :: before => some (before.reverse, (cs.reverse.takeWhile (· != sep)).reverse)

/-- `split_once(pattern)`, for a pattern that is not empty. -/
def splitOncePattern (pattern : List Char) : List Char → Option (List Char × List Char)
  | [] => none
  | c :: rest =>
    if pattern.isPrefixOf (c :: rest) then some ([], (c :: rest).drop pattern.length)
    else (splitOncePattern pattern rest).map (fun (before, after) => (c :: before, after))

/-- `trim_end_matches(ch)`. -/
def trimEndMatches (ch : Char) (cs : List Char) : List Char := cs.rdropWhile (· == ch)

/-- `to_ascii_lowercase`. -/
def asciiLower (cs : List Char) : List Char := cs.map Char.toLower

/-! ### Splitting -/

theorem rsplitOnce_append {sep : Char} (before : List Char) {after : List Char} (last : sep ∉ after) :
    rsplitOnce sep (before ++ sep :: after) = some (before, after) := by
  have differ : ∀ c ∈ after.reverse, (c != sep) = true := by
    intro c member
    rw [bne_iff_ne]
    rintro rfl
    exact last (List.mem_reverse.mp member)
  have turned : (before ++ sep :: after).reverse = after.reverse ++ sep :: before.reverse := by simp
  unfold rsplitOnce
  rw [turned, List.dropWhile_append_of_pos differ, List.takeWhile_append_of_pos differ]
  simp

/-- With two separators there is one before the cut. -/
theorem rsplitOnce_of_two {sep : Char} {cs : List Char} (two : 2 ≤ cs.count sep) :
    ∃ before after, rsplitOnce sep cs = some (before, after) ∧ sep ∈ before := by
  have member : sep ∈ cs.reverse := List.mem_reverse.mpr (List.count_pos_iff.mp (by omega))
  obtain ⟨after, before, turned, last⟩ := List.eq_append_cons_of_mem member
  have joined : cs = before.reverse ++ sep :: after.reverse := by
    rw [← List.reverse_reverse cs, turned]
    simp
  have last : sep ∉ after.reverse := fun member => last (List.mem_reverse.mp member)
  refine ⟨before.reverse, after.reverse, ?_, ?_⟩
  · rw [joined, rsplitOnce_append _ last]
  · rw [joined, List.count_append, List.count_cons_self, List.count_eq_zero.mpr last] at two
    exact List.count_pos_iff.mp (by omega)

theorem rsplitOnce_eq_none {sep : Char} {cs : List Char} (absent : sep ∉ cs) : rsplitOnce sep cs = none := by
  have dropped : cs.reverse.dropWhile (· != sep) = [] := by
    rw [List.dropWhile_eq_nil_iff]
    intro c member
    rw [bne_iff_ne]
    rintro rfl
    exact absent (List.mem_reverse.mp member)
  unfold rsplitOnce
  rw [dropped]

/-- The text is cut at the first occurrence of the pattern. -/
theorem splitOncePattern_eq_some {pattern cs before after : List Char} (proper : pattern ≠ [])
    (found : splitOncePattern pattern cs = some (before, after)) :
    cs = before ++ pattern ++ after ∧ ¬ pattern <:+: before ++ pattern.dropLast := by
  induction cs generalizing before with
  | nil => cases found
  | cons c rest ih =>
    simp only [splitOncePattern] at found
    split at found
    · rename_i here
      obtain ⟨tail, joined⟩ := List.isPrefixOf_iff_prefix.mp here
      cases found
      refine ⟨by rw [← joined, List.drop_left, List.nil_append], fun inside => ?_⟩
      have shorter := inside.length_le
      have := List.length_pos_iff.mpr proper
      rw [List.nil_append, List.length_dropLast] at shorter
      omega
    · rename_i elsewhere
      obtain ⟨⟨before', after'⟩, later, pair⟩ := Option.map_eq_some_iff.mp found
      cases pair
      obtain ⟨joined, first⟩ := ih later
      refine ⟨by rw [joined]; rfl, fun inside => ?_⟩
      obtain start | inside := List.infix_cons_iff.mp inside
      · refine elsewhere (List.isPrefixOf_iff_prefix.mpr (start.trans ?_))
        rw [joined, List.append_assoc, ← List.cons_append]
        exact (List.prefix_append_right_inj (c :: before')).mpr
          ((List.dropLast_prefix pattern).trans (List.prefix_append pattern _))
      · exact first inside

/-- The characters of a text are those of its pieces and the separator. -/
theorem mem_of_mem_splitOn {sep ch : Char} {cs : List Char} (member : ch ∈ cs) :
    ch = sep ∨ ∃ piece ∈ cs.splitOn sep, ch ∈ piece := by
  induction cs with
  | nil => cases member
  | cons c rest ih =>
    obtain ⟨piece, pieces, split⟩ := List.exists_cons_of_ne_nil (List.splitOn_ne_nil sep rest)
    rw [List.splitOn_cons_eq_if_modifyHead]
    by_cases same : c = sep
    · obtain rfl | member := List.mem_cons.mp member
      · exact .inl same
      · obtain here | ⟨piece, among, member⟩ := ih member
        · exact .inl here
        · exact .inr ⟨piece, by simp [same, among], member⟩
    · rw [if_neg (by simpa using same), split, List.modifyHead_cons]
      obtain rfl | member := List.mem_cons.mp member
      · exact .inr ⟨_, List.mem_cons_self, List.mem_cons_self⟩
      · obtain here | ⟨other, among, member⟩ := ih member
        · exact .inl here
        · rw [split] at among
          obtain rfl | among := List.mem_cons.mp among
          · exact .inr ⟨_, List.mem_cons_self, List.mem_cons_of_mem _ member⟩
          · exact .inr ⟨other, List.mem_cons_of_mem _ among, member⟩

/-- A character at the end of a text ends a piece of it. -/
theorem exists_mem_splitOn_concat {sep ch : Char} (differ : ch ≠ sep) (cs : List Char) :
    ∃ piece, piece ++ [ch] ∈ (cs ++ [ch]).splitOn sep := by
  induction cs with
  | nil => exact ⟨[], by simp [List.splitOn_cons_eq_if_modifyHead, differ]⟩
  | cons c rest ih =>
    obtain ⟨piece, member⟩ := ih
    rw [List.cons_append, List.splitOn_cons_eq_if_modifyHead]
    split
    · exact ⟨piece, List.mem_cons_of_mem _ member⟩
    · obtain ⟨first, pieces, split⟩ := List.exists_cons_of_ne_nil (List.splitOn_ne_nil sep (rest ++ [ch]))
      rw [split] at member
      rw [split, List.modifyHead_cons]
      obtain rfl | member := List.mem_cons.mp member
      · exact ⟨c :: piece, List.mem_cons_self⟩
      · exact ⟨piece, List.mem_cons_of_mem _ member⟩

theorem length_splitOn (sep : Char) (cs : List Char) : (cs.splitOn sep).length = cs.count sep + 1 := by
  induction cs with
  | nil => rfl
  | cons c rest ih =>
    rw [List.splitOn_cons_eq_if_modifyHead, List.count_cons]
    split
    · rw [List.length_cons, ih]
    · rw [List.length_modifyHead, ih, Nat.add_zero]

/-! ### Trimming -/

theorem trimEndMatches_append {ch : Char} {cs tail : List Char} (last : cs.getLast? ≠ some ch) (alike : ∀ c ∈ tail, c = ch) :
    trimEndMatches ch (cs ++ tail) = cs := by
  unfold trimEndMatches
  induction tail using List.reverseRecOn with
  | nil =>
    rw [List.append_nil, List.rdropWhile_eq_self_iff]
    intro nonempty same
    rw [List.getLast?_eq_some_getLast nonempty] at last
    exact last (congrArg some (beq_iff_eq.mp same))
  | append_singleton tail c ih =>
    rw [← List.append_assoc, List.rdropWhile_concat_pos]
    · exact ih fun c member => alike c (List.mem_append_left _ member)
    · exact beq_iff_eq.mpr (alike c (List.mem_append_right _ List.mem_cons_self))

/-! ### Case -/

/-- A range of characters has a property if its members, taken one by one, have it. -/
theorem holds_in_range {test : Char → Prop} {low count : Nat} (each : ∀ n < count, test (Char.ofNat (low + n))) {ch : Char}
    (above : low ≤ ch.toNat) (below : ch.toNat < low + count) : test ch := by
  have here := each (ch.toNat - low) (by omega)
  rwa [show low + (ch.toNat - low) = ch.toNat by omega, Char.ofNat_toNat] at here

def upperLetters : List Char := "ABCDEFGHIJKLMNOPQRSTUVWXYZ".toList

theorem mem_upperLetters {ch : Char} (low : 65 ≤ ch.toNat) (high : ch.toNat ≤ 90) : ch ∈ upperLetters :=
  @holds_in_range (· ∈ upperLetters) 65 26 (by decide) ch low (Nat.lt_succ_of_le high)

theorem toLower_eq_self {ch : Char} (small : ch ∉ upperLetters) : ch.toLower = ch := by
  unfold Char.toLower
  exact dif_neg fun upper => small (mem_upperLetters upper.1 upper.2)

/-- A test that the capital letters pass like the small ones gives the same for a character and its lower case. -/
theorem toLower_agrees {test : Char → Bool} (letters : upperLetters.all (fun ch => test ch.toLower == test ch) = true)
    (ch : Char) : test ch.toLower = test ch := by
  by_cases upper : ch ∈ upperLetters
  · exact beq_iff_eq.mp (List.all_eq_true.mp letters ch upper)
  · rw [toLower_eq_self upper]

theorem asciiLower_eq_nil {cs : List Char} : asciiLower cs = [] ↔ cs = [] := List.map_eq_nil_iff

theorem all_asciiLower {test : Char → Bool} (letters : upperLetters.all (fun ch => test ch.toLower == test ch) = true)
    (cs : List Char) : (asciiLower cs).all test = cs.all test := by
  unfold asciiLower
  rw [List.all_map]
  exact congrArg cs.all (funext fun ch => toLower_agrees letters ch)

theorem mem_asciiLower {sep : Char} (letters : upperLetters.all (fun ch => (ch.toLower == sep) == (ch == sep)) = true)
    {cs : List Char} : sep ∈ asciiLower cs ↔ sep ∈ cs := by
  have agrees : ∀ ch : Char, ch.toLower = sep ↔ ch = sep := by
    intro ch
    rw [← beq_iff_eq, @toLower_agrees (· == sep) letters ch, beq_iff_eq]
  unfold asciiLower
  rw [List.mem_map]
  constructor
  · rintro ⟨ch, member, lower⟩
    rwa [← (agrees ch).mp lower]
  · exact fun member => ⟨sep, member, (agrees sep).mpr rfl⟩

theorem splitOn_asciiLower {sep : Char} (letters : upperLetters.all (fun ch => (ch.toLower == sep) == (ch == sep)) = true)
    (cs : List Char) : (asciiLower cs).splitOn sep = (cs.splitOn sep).map asciiLower := by
  induction cs with
  | nil => rfl
  | cons c rest ih =>
    have same : (c.toLower == sep) = (c == sep) := @toLower_agrees (· == sep) letters c
    have cut := List.splitOn_cons_eq_if_modifyHead (a := sep) c.toLower (asciiLower rest)
    obtain ⟨piece, pieces, split⟩ := List.exists_cons_of_ne_nil (List.splitOn_ne_nil sep rest)
    rw [ih, same, split] at cut
    rw [List.splitOn_cons_eq_if_modifyHead c rest, split]
    refine cut.trans ?_
    split <;> rfl

theorem isPrefixOf_asciiLower {pattern : List Char}
    (letters : pattern.all (fun p => upperLetters.all fun ch => (p == ch.toLower) == (p == ch)) = true) (cs : List Char) :
    pattern.isPrefixOf (asciiLower cs) = pattern.isPrefixOf cs := by
  induction pattern generalizing cs with
  | nil => rfl
  | cons p pattern ih =>
    rw [List.all_cons, Bool.and_eq_true] at letters
    cases cs with
    | nil => rfl
    | cons c rest =>
      have same : (p == c.toLower) = (p == c) := @toLower_agrees (p == ·) letters.1 c
      exact congrArg₂ (· && ·) same (ih letters.2 rest)

theorem splitOncePattern_asciiLower {pattern : List Char}
    (letters : pattern.all (fun p => upperLetters.all fun ch => (p == ch.toLower) == (p == ch)) = true) (cs : List Char) :
    splitOncePattern pattern (asciiLower cs) = (splitOncePattern pattern cs).map (Prod.map asciiLower asciiLower) := by
  induction cs with
  | nil => rfl
  | cons c rest ih =>
    have same := isPrefixOf_asciiLower letters (c :: rest)
    have cut : splitOncePattern pattern (asciiLower (c :: rest)) =
        if pattern.isPrefixOf (asciiLower (c :: rest)) then some ([], (asciiLower (c :: rest)).drop pattern.length)
        else (splitOncePattern pattern (asciiLower rest)).map (fun (before, after) => (c.toLower :: before, after)) := rfl
    rw [cut, same, ih, splitOncePattern]
    split
    · simp [asciiLower, List.map_drop]
    · cases splitOncePattern pattern rest <;> rfl

end SoloPool.Lib
