import SoloPool.Lib.Text

/-!
# Address literals

`IpAddr::from_str` of the standard library: dotted decimal without leading zeros, and the text forms of an IPv6 address
with at most one `::` and, in its last place, a dotted decimal for two groups.
-/

namespace SoloPool.Lib

def isDecOctet (piece : List Char) : Bool :=
  decide (1 ≤ piece.length ∧ piece.length ≤ 3) && piece.all Char.isDigit &&
    (decide (piece.length = 1) || decide (piece.head? ≠ some '0')) && decide (Nat.ofDigitChars 10 piece 0 ≤ 255)

def isIpv4 (cs : List Char) : Bool :=
  decide ((cs.splitOn '.').length = 4) && (cs.splitOn '.').all isDecOctet

def isHexDigit (ch : Char) : Bool := ch.isDigit || ('a' ≤ ch && ch ≤ 'f') || ('A' ≤ ch && ch ≤ 'F')

def isHexGroup (piece : List Char) : Bool := decide (1 ≤ piece.length ∧ piece.length ≤ 4) && piece.all isHexDigit

/-- How many groups of 16 bits the pieces stand for; the last one may be a dotted decimal. -/
def groupCount : List (List Char) → Option Nat
  | [] => none
  | [piece] => if isHexGroup piece then some 1 else if isIpv4 piece then some 2 else none
  | piece :: pieces => if isHexGroup piece then (groupCount pieces).map (· + 1) else none

/-- The groups on one side of `::`, of which there may be none; a dotted decimal only on its right. -/
def sideCount (dotted : Bool) (cs : List Char) : Option Nat :=
  if cs = [] then some 0
  else if dotted then groupCount (cs.splitOn ':')
  else if (cs.splitOn ':').all isHexGroup then some (cs.splitOn ':').length
  else none

def isIpv6 (cs : List Char) : Bool :=
  match splitOncePattern [':', ':'] cs with
  | none => decide (groupCount (cs.splitOn ':') = some 8)
  | some (left, right) =>
    match sideCount false left, sideCount true right with
    | some l, some r => decide (l + r ≤ 7)
    | _, _ => false

def isIpAddr (cs : List Char) : Bool := isIpv4 cs || isIpv6 cs

/-! ### Digits -/

def hexCharacters : List Char := "0123456789abcdefABCDEF".toList

theorem mem_hexCharacters {ch : Char} (hex : isHexDigit ch = true) : ch ∈ hexCharacters := by
  simp only [isHexDigit, Bool.or_eq_true, Bool.and_eq_true, decide_eq_true_eq] at hex
  obtain (digit | small) | capital := hex
  · simp only [Char.isDigit, Bool.and_eq_true, decide_eq_true_eq] at digit
    exact @holds_in_range (· ∈ hexCharacters) 48 10 (by decide) ch digit.1 (Nat.lt_succ_of_le digit.2)
  · exact @holds_in_range (· ∈ hexCharacters) 97 6 (by decide) ch small.1 (Nat.lt_succ_of_le small.2)
  · exact @holds_in_range (· ∈ hexCharacters) 65 6 (by decide) ch capital.1 (Nat.lt_succ_of_le capital.2)

theorem isHexDigit_of_isDigit {ch : Char} (digit : ch.isDigit = true) : isHexDigit ch = true := by
  simp only [isHexDigit, digit, Bool.true_or]

/-! ### Dotted decimal -/

section Ipv4

variable {piece cs : List Char}

theorem isDecOctet_digits (octet : isDecOctet piece = true) : piece ≠ [] ∧ ∀ ch ∈ piece, ch.isDigit = true := by
  simp only [isDecOctet, Bool.and_eq_true, decide_eq_true_eq, List.all_eq_true] at octet
  exact ⟨List.ne_nil_of_length_pos octet.1.1.1.1, octet.1.1.2⟩

theorem isIpv4_octets (ipv4 : isIpv4 cs = true) : ∀ piece ∈ cs.splitOn '.', isDecOctet piece = true := by
  simp only [isIpv4, Bool.and_eq_true, List.all_eq_true] at ipv4
  exact ipv4.2

theorem isIpv4_chars (ipv4 : isIpv4 cs = true) {ch : Char} (member : ch ∈ cs) : ch = '.' ∨ ch.isDigit = true := by
  obtain dot | ⟨piece, among, member⟩ := @mem_of_mem_splitOn '.' ch cs member
  · exact .inl dot
  · exact .inr ((isDecOctet_digits (isIpv4_octets ipv4 piece among)).2 ch member)

theorem isIpv4_getLast (ipv4 : isIpv4 cs = true) : cs.getLast? ≠ some '.' := by
  intro last
  obtain ⟨init, rfl⟩ := List.getLast?_eq_some_iff.mp last
  have cut := List.splitOn_append_cons_self (a := '.') init []
  have octet := isIpv4_octets ipv4 [] (by rw [cut]; simp)
  exact (isDecOctet_digits octet).1 rfl

theorem asciiLower_digits (digits : ∀ ch ∈ cs, ch.isDigit = true) : asciiLower cs = cs := by
  have letters : upperLetters.all (fun ch => !ch.isDigit) = true := by decide
  refine (List.map_congr_left fun ch member => toLower_eq_self fun upper => ?_).trans (List.map_id cs)
  have other := List.all_eq_true.mp letters ch upper
  rw [digits ch member] at other
  cases other

theorem isDecOctet_asciiLower (piece : List Char) : isDecOctet (asciiLower piece) = isDecOctet piece := by
  have test := @all_asciiLower Char.isDigit (by decide) piece
  by_cases digits : piece.all Char.isDigit = true
  · rw [asciiLower_digits (List.all_eq_true.mp digits)]
  · rw [Bool.not_eq_true] at digits
    rw [digits] at test
    simp only [isDecOctet, test, digits, Bool.and_false, Bool.false_and]

theorem isIpv4_asciiLower (cs : List Char) : isIpv4 (asciiLower cs) = isIpv4 cs := by
  unfold isIpv4
  rw [splitOn_asciiLower (by decide), List.length_map, List.all_map]
  congr 2
  exact funext isDecOctet_asciiLower

end Ipv4

/-! ### IPv6 -/

section Ipv6

variable {cs : List Char}

/-- What stands between the colons of an IPv6 literal. -/
def IsGroup (piece : List Char) : Prop := isHexGroup piece = true ∨ isIpv4 piece = true

theorem groupCount_some {pieces : List (List Char)} {n : Nat} (counted : groupCount pieces = some n) :
    n ≤ pieces.length + 1 ∧ ∀ piece ∈ pieces, IsGroup piece := by
  fun_induction groupCount pieces generalizing n with
  | case1 => cases counted
  | case2 piece hex =>
    cases counted
    exact ⟨by simp, by simpa using .inl hex⟩
  | case3 piece hex dotted =>
    cases counted
    exact ⟨by simp, by simpa using .inr dotted⟩
  | case4 => cases counted
  | case5 piece pieces more hex ih =>
    obtain ⟨m, rest, rfl⟩ := Option.map_eq_some_iff.mp counted
    obtain ⟨few, groups⟩ := ih rest
    refine ⟨by simpa using few, fun piece member => ?_⟩
    obtain rfl | member := List.mem_cons.mp member
    · exact .inl hex
    · exact groups piece member
  | case6 => cases counted

theorem sideCount_some {dotted : Bool} {n : Nat} (counted : sideCount dotted cs = some n) :
    cs = [] ∨ ∀ piece ∈ cs.splitOn ':', IsGroup piece := by
  unfold sideCount at counted
  split at counted
  · exact .inl ‹_›
  · split at counted
    · exact .inr (groupCount_some counted).2
    · split at counted
      · rename_i groups
        exact .inr fun piece member => .inl (List.all_eq_true.mp groups piece member)
      · cases counted

/-- An IPv6 literal is made of groups, at least seven of them or on the two sides of a double colon. -/
theorem isIpv6_cases (ipv6 : isIpv6 cs = true) :
    (6 ≤ cs.count ':' ∧ ∀ piece ∈ cs.splitOn ':', IsGroup piece) ∨
      ∃ left right, cs = left ++ [':', ':'] ++ right ∧ (left = [] ∨ ∀ piece ∈ left.splitOn ':', IsGroup piece) ∧
        (right = [] ∨ ∀ piece ∈ right.splitOn ':', IsGroup piece) := by
  unfold isIpv6 at ipv6
  split at ipv6
  · obtain ⟨many, groups⟩ := groupCount_some (of_decide_eq_true ipv6)
    rw [length_splitOn] at many
    exact .inl ⟨by omega, groups⟩
  · rename_i left right found
    split at ipv6
    · rename_i l r leftCount rightCount
      exact .inr ⟨left, right, (splitOncePattern_eq_some (by decide) found).1, sideCount_some leftCount,
        sideCount_some rightCount⟩
    · cases ipv6

theorem isIpv6_colons (ipv6 : isIpv6 cs = true) : 2 ≤ cs.count ':' := by
  obtain ⟨many, -⟩ | ⟨left, right, rfl, -⟩ := isIpv6_cases ipv6
  · omega
  · simp only [List.count_append]
    have : List.count ':' [':', ':'] = 2 := by decide
    omega

def isIpv6Char (ch : Char) : Bool := isHexDigit ch || ch == ':' || ch == '.'

theorem isGroup_chars {piece : List Char} (group : IsGroup piece) {ch : Char} (member : ch ∈ piece) : isIpv6Char ch = true := by
  obtain hex | ipv4 := group
  · simp only [isHexGroup, Bool.and_eq_true, List.all_eq_true] at hex
    simp [isIpv6Char, hex.2 ch member]
  · obtain rfl | digit := isIpv4_chars ipv4 member
    · decide
    · simp [isIpv6Char, isHexDigit_of_isDigit digit]

theorem isGroup_getLast {init : List Char} : ¬ IsGroup (init ++ ['.']) := by
  rintro (hex | ipv4)
  · simp only [isHexGroup, Bool.and_eq_true, List.all_eq_true] at hex
    exact absurd (hex.2 '.' (by simp)) (by decide)
  · exact isIpv4_getLast ipv4 (by simp)

theorem groups_chars (groups : cs = [] ∨ ∀ piece ∈ cs.splitOn ':', IsGroup piece) {ch : Char} (member : ch ∈ cs) :
    isIpv6Char ch = true := by
  obtain rfl | groups := groups
  · cases member
  · obtain rfl | ⟨piece, among, member⟩ := @mem_of_mem_splitOn ':' ch cs member
    · decide
    · exact isGroup_chars (groups piece among) member

theorem groups_getLast (groups : cs = [] ∨ ∀ piece ∈ cs.splitOn ':', IsGroup piece) : cs.getLast? ≠ some '.' := by
  intro last
  obtain ⟨init, rfl⟩ := List.getLast?_eq_some_iff.mp last
  obtain ⟨piece, among⟩ := exists_mem_splitOn_concat (show '.' ≠ ':' by decide) init
  exact isGroup_getLast (groups.resolve_left (by simp) _ among)

theorem isIpv6_chars (ipv6 : isIpv6 cs = true) {ch : Char} (member : ch ∈ cs) : isIpv6Char ch = true := by
  obtain ⟨-, groups⟩ | ⟨left, right, rfl, leftGroups, rightGroups⟩ := isIpv6_cases ipv6
  · exact groups_chars (.inr groups) member
  · obtain member | member := List.mem_append.mp member
    · obtain member | member := List.mem_append.mp member
      · exact groups_chars leftGroups member
      · exact List.all_eq_true.mp (show [':', ':'].all isIpv6Char = true by decide) ch member
    · exact groups_chars rightGroups member

theorem isIpv6_getLast (ipv6 : isIpv6 cs = true) : cs.getLast? ≠ some '.' := by
  obtain ⟨-, groups⟩ | ⟨left, right, rfl, -, rightGroups⟩ := isIpv6_cases ipv6
  · exact groups_getLast (.inr groups)
  · cases right with
    | nil => simp
    | cons ch rest =>
      rw [List.getLast?_append_of_ne_nil _ (by simp)]
      exact groups_getLast rightGroups

theorem isHexGroup_asciiLower (piece : List Char) : isHexGroup (asciiLower piece) = isHexGroup piece := by
  unfold isHexGroup
  rw [all_asciiLower (by decide), asciiLower, List.length_map]

theorem groupCount_asciiLower (pieces : List (List Char)) : groupCount (pieces.map asciiLower) = groupCount pieces := by
  induction pieces with
  | nil => rfl
  | cons piece rest ih =>
    cases rest with
    | nil => simp only [List.map_cons, List.map_nil, groupCount, isHexGroup_asciiLower, isIpv4_asciiLower]
    | cons next rest =>
      rw [List.map_cons] at ih
      simp only [List.map_cons, groupCount, isHexGroup_asciiLower]
      rw [ih]

theorem sideCount_asciiLower (dotted : Bool) (cs : List Char) : sideCount dotted (asciiLower cs) = sideCount dotted cs := by
  unfold sideCount
  rw [splitOn_asciiLower (by decide), groupCount_asciiLower, List.all_map, List.length_map]
  simp only [Function.comp_def, isHexGroup_asciiLower, asciiLower_eq_nil]

theorem isIpv6_asciiLower (cs : List Char) : isIpv6 (asciiLower cs) = isIpv6 cs := by
  unfold isIpv6
  rw [splitOncePattern_asciiLower (by decide), splitOn_asciiLower (by decide), groupCount_asciiLower]
  cases splitOncePattern [':', ':'] cs with
  | none => rfl
  | some sides =>
    simp only [Option.map_some, Prod.map, sideCount_asciiLower]

theorem isIpAddr_asciiLower (cs : List Char) : isIpAddr (asciiLower cs) = isIpAddr cs := by
  unfold isIpAddr
  rw [isIpv4_asciiLower, isIpv6_asciiLower]

end Ipv6

end SoloPool.Lib
