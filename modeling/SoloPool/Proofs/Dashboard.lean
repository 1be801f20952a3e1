import SoloPool.Network.Dashboard

/-!
# The mutation guard

A public name that can be made to resolve to the pool is refused in every spelling; the hosts that cannot have come from a
public resolver are let through in every spelling; and an Origin is let through only if it names the host itself. What an
IP literal is, the parser of the standard library says.
-/

namespace SoloPool
open Lib

/-! ### Hosts and their spellings -/

def isVisible (ch : Char) : Bool := decide (0x21 ≤ ch.toNat) && decide (ch.toNat < 0x7f)

/-- Any visible ASCII character but those with a meaning in an authority. -/
def isNameChar (ch : Char) : Bool := isVisible ch && !"[]:.".toList.contains ch

structure DnsName where
  labels : List (List Char)
  named : labels ≠ []
  valid : ∀ label ∈ labels, label ≠ [] ∧ label.all isNameChar = true

namespace DnsName

def text (n : DnsName) : List Char := ['.'].intercalate n.labels

def key (n : DnsName) : String := String.ofList (asciiLower n.text)

def hasLocalSuffix (n : DnsName) : Bool := localSuffixes.any fun suffix => suffix.toList.isSuffixOf (asciiLower n.text)

end DnsName

def Dots (cs : List Char) : Prop := ∀ ch ∈ cs, ch = '.'

def Port (cs : List Char) : Prop := cs = [] ∨ ∃ digits, cs = ':' :: digits ∧ digits.all Char.isDigit = true

/-- The host as a client may write it: in any letter case, with or without trailing dots and a port. -/
def Spells (host written : List Char) : Prop :=
  ∃ cased dots port, written = cased ++ dots ++ port ∧ asciiLower cased = asciiLower host ∧ Dots dots ∧ Port port

/-- A name that public DNS can point at the pool. -/
structure Rebindable (allowed : List String) (n : DnsName) : Prop where
  dotted : 2 ≤ n.labels.length
  alphabetic : (n.labels.getLast n.named).all Char.isDigit = false
  global : n.hasLocalSuffix = false
  unlisted : n.key ∉ allowed

/-- The hosts that are let through, as written. -/
inductive Trusted (allowed : List String) : List Char → Prop where
  | ipv4 {literal written : List Char} : isIpv4 literal = true → Spells literal written → Trusted allowed written
  | bracketed {literal cased inner outer port : List Char} : isIpv6 literal = true → asciiLower cased = asciiLower literal →
      Dots inner → Dots outer → Port port → Trusted allowed ('[' :: cased ++ inner ++ ']' :: (outer ++ port))
  | bare {literal cased dots : List Char} : isIpv6 literal = true → asciiLower cased = asciiLower literal → Dots dots →
      Trusted allowed (cased ++ dots)
  | label {n : DnsName} {written : List Char} : n.labels.length = 1 → Spells n.text written → Trusted allowed written
  | suffix {n : DnsName} {written : List Char} : n.hasLocalSuffix = true → Spells n.text written → Trusted allowed written
  | listed {n : DnsName} {written : List Char} : n.key ∈ allowed → Spells n.text written → Trusted allowed written

/-- The authority of an origin: what follows the first `://`, up to the next slash. -/
def OriginNames (origin authority : List Char) : Prop :=
  ∃ scheme rest, origin = scheme ++ "://".toList ++ (authority ++ rest) ∧ ¬ "://".toList <:+: scheme ++ ":/".toList ∧
    '/' ∉ authority ∧ (rest = [] ∨ rest.head? = some '/')

/-! ### Reading a header -/

def headerValue (text : List Char) : Bytes := text.map fun ch => UInt8.ofNat ch.toNat

section Header

variable {cs : List Char}

theorem isVisible_toNat {ch : Char} (visible : isVisible ch = true) : 0x21 ≤ ch.toNat ∧ ch.toNat < 0x7f := by
  simpa [isVisible] using visible

theorem headerText_headerValue (visible : cs.all isVisible = true) :
    headerText (headerValue cs) = some (String.ofList cs) := by
  have bounds : ∀ ch ∈ cs, 0x21 ≤ ch.toNat ∧ ch.toNat < 0x7f :=
    fun ch member => isVisible_toNat (List.all_eq_true.mp visible ch member)
  have byte : ∀ ch ∈ cs, (UInt8.ofNat ch.toNat).toNat = ch.toNat := by
    intro ch member
    have := bounds ch member
    exact UInt8.toNat_ofNat_of_lt (by simp only [UInt8.size]; omega)
  unfold headerText headerValue
  rw [if_pos]
  · refine congrArg (some ∘ String.ofList) ?_
    rw [List.map_map]
    refine (List.map_congr_left fun ch member => ?_).trans (List.map_id cs)
    exact (congrArg Char.ofNat (byte ch member)).trans (Char.ofNat_toNat ch)
  · simp only [List.all_map, List.all_eq_true, Function.comp_apply]
    intro ch member
    have := bounds ch member
    simp only [Bool.or_eq_true, Bool.and_eq_true, decide_eq_true_eq, UInt8.le_iff_toNat_le, UInt8.lt_iff_toNat_lt,
      byte ch member]
    refine .inl ⟨?_, ?_⟩
    · exact Nat.le_trans (by decide) this.1
    · exact this.2

theorem dropWhile_isWhitespace (visible : cs.all isVisible = true) : cs.dropWhile isWhitespace = cs := by
  cases cs with
  | nil => rfl
  | cons ch rest =>
    rw [List.all_cons, Bool.and_eq_true] at visible
    have := isVisible_toNat visible.1
    refine List.dropWhile_cons_of_neg ?_
    simp only [isWhitespace, Bool.or_eq_true, Bool.and_eq_true, decide_eq_true_eq, beq_iff_eq]
    omega

theorem trim_visible (visible : cs.all isVisible = true) : trim (String.ofList cs) = String.ofList cs := by
  unfold trim
  rw [String.toList_ofList, dropWhile_isWhitespace visible, dropWhile_isWhitespace (by rwa [List.all_reverse]),
    List.reverse_reverse]

end Header

/-! ### The host of an authority -/

/-- What `authority_host` relies on to find a host before dots and a port. -/
structure Plain (host : List Char) : Prop where
  nonempty : host ≠ []
  chars : host.all (fun ch => isVisible ch && !"[:".toList.contains ch) = true
  last : host.getLast? ≠ some '.'

theorem Plain.of_lower {host cased : List Char} (plain : Plain host) (same : asciiLower cased = asciiLower host) :
    Plain cased where
  nonempty := by
    rintro rfl
    exact plain.nonempty (asciiLower_eq_nil.mp same.symm)
  chars := by
    rw [← plain.chars, ← all_asciiLower (by decide) cased, same, all_asciiLower (by decide)]
  last := by
    intro last
    have lower : (asciiLower host).getLast? = some '.' := by
      rw [← same, asciiLower, List.getLast?_map, last]
      rfl
    rw [asciiLower, List.getLast?_map] at lower
    obtain ⟨ch, final, dot⟩ := Option.map_eq_some_iff.mp lower
    have agrees := @toLower_agrees (· == '.') (by decide) ch
    rw [dot] at agrees
    exact plain.last (final.trans (congrArg some (beq_iff_eq.mp agrees.symm)))

theorem Plain.visible {host : List Char} (plain : Plain host) : host.all isVisible = true := by
  refine List.all_eq_true.mpr fun ch member => ?_
  have := List.all_eq_true.mp plain.chars ch member
  exact (Bool.and_eq_true_iff.mp this).1

theorem Plain.not_mem {host : List Char} (plain : Plain host) {ch : Char} (special : ch ∈ "[:".toList) : ch ∉ host := by
  intro member
  have := List.all_eq_true.mp plain.chars ch member
  rw [List.contains_iff_mem.mpr special, Bool.not_true, Bool.and_false] at this
  cases this

theorem Dots.visible {dots : List Char} (all : Dots dots) : dots.all isVisible = true := by
  refine List.all_eq_true.mpr fun ch member => ?_
  rw [all ch member]
  decide

theorem Port.visible {port : List Char} (valid : Port port) : port.all isVisible = true := by
  obtain rfl | ⟨digits, rfl, all⟩ := valid
  · rfl
  · refine List.all_eq_true.mpr fun ch member => ?_
    obtain rfl | member := List.mem_cons.mp member
    · decide
    · have digit := isHexDigit_of_isDigit (List.all_eq_true.mp all ch member)
      exact List.all_eq_true.mp (show hexCharacters.all isVisible = true by decide) ch (mem_hexCharacters digit)

theorem authorityHost_of_hostPart {cs host dots : List Char} (visible : cs.all isVisible = true)
    (part : hostPart cs = host ++ dots) (nonempty : host ≠ []) (last : host.getLast? ≠ some '.') (all : Dots dots) :
    authorityHost (String.ofList cs) = some (String.ofList (asciiLower host)) := by
  unfold authorityHost
  rw [trim_visible visible, String.toList_ofList, part, trimEndMatches_append last all, if_neg]
  exact fun empty => nonempty (asciiLower_eq_nil.mp empty)

theorem hostPart_unbracketed {cs : List Char} (start : cs.head? ≠ some '[') :
    hostPart cs =
      match rsplitOnce ':' cs with
      | some (h, port) => if !h.contains ':' && port.all Char.isDigit then h else cs
      | none => cs := by
  unfold hostPart
  split
  · exact absurd rfl start
  · rfl

theorem hostPart_plain {host dots port : List Char} (plain : Plain host) (all : Dots dots) (valid : Port port) :
    hostPart (host ++ dots ++ port) = host ++ dots := by
  have start : (host ++ dots ++ port).head? ≠ some '[' := by
    obtain ⟨ch, tail, rfl⟩ := List.exists_cons_of_ne_nil plain.nonempty
    intro bracket
    rw [List.cons_append, List.cons_append, List.head?_cons] at bracket
    cases bracket
    exact plain.not_mem (by decide) List.mem_cons_self
  have whole : ':' ∉ host ++ dots := by
    intro member
    obtain member | member := List.mem_append.mp member
    · exact plain.not_mem (by decide) member
    · exact absurd (all _ member) (by decide)
  rw [hostPart_unbracketed start]
  obtain rfl | ⟨digits, rfl, decimal⟩ := valid
  · rw [List.append_nil, rsplitOnce_eq_none whole]
  · have last : ':' ∉ digits := fun member => absurd (List.all_eq_true.mp decimal _ member) (by decide)
    rw [rsplitOnce_append _ last]
    exact if_pos (by simpa [decimal] using whole)

theorem authorityHost_spells {host written : List Char} (plain : Plain host) (spelled : Spells host written) :
    written.all isVisible = true ∧ authorityHost (String.ofList written) = some (String.ofList (asciiLower host)) := by
  obtain ⟨cased, dots, port, rfl, same, all, valid⟩ := spelled
  have plain := plain.of_lower same
  have visible : (cased ++ dots ++ port).all isVisible = true := by
    rw [List.all_append, List.all_append, plain.visible, all.visible, valid.visible]
    rfl
  rw [← same]
  exact ⟨visible, authorityHost_of_hostPart visible (hostPart_plain plain all valid) plain.nonempty plain.last all⟩

/-! ### IP literals -/

section Literal

variable {literal cased : List Char}

theorem isIpv4_plain (ipv4 : isIpv4 literal = true) : Plain literal where
  nonempty := by
    rintro rfl
    exact absurd ipv4 (by decide)
  chars := by
    have digits : hexCharacters.all (fun ch => isVisible ch && !"[:".toList.contains ch) = true := by decide
    refine List.all_eq_true.mpr fun ch member => ?_
    obtain rfl | digit := isIpv4_chars ipv4 member
    · decide
    · exact List.all_eq_true.mp digits ch (mem_hexCharacters (isHexDigit_of_isDigit digit))
  last := isIpv4_getLast ipv4

/-- What `authority_host` relies on to find an IPv6 literal. -/
structure Ipv6Text (cased : List Char) : Prop where
  colons : 2 ≤ cased.count ':'
  chars : ∀ ch ∈ cased, isVisible ch = true ∧ ch ≠ '[' ∧ ch ≠ ']'
  last : cased.getLast? ≠ some '.'

theorem isIpv6_text (ipv6 : isIpv6 literal = true) (same : asciiLower cased = asciiLower literal) : Ipv6Text cased := by
  have ipv6 : isIpv6 cased = true := by rw [← isIpv6_asciiLower, same, isIpv6_asciiLower, ipv6]
  refine ⟨isIpv6_colons ipv6, fun ch member => ?_, isIpv6_getLast ipv6⟩
  have valid := isIpv6_chars ipv6 member
  simp only [isIpv6Char, Bool.or_eq_true, beq_iff_eq] at valid
  obtain (hex | rfl) | rfl := valid
  · have digits : hexCharacters.all (fun ch => decide (isVisible ch = true ∧ ch ≠ '[' ∧ ch ≠ ']')) = true := by decide
    exact of_decide_eq_true (List.all_eq_true.mp digits ch (mem_hexCharacters hex))
  · decide
  · decide

theorem Ipv6Text.nonempty (text : Ipv6Text cased) : cased ≠ [] := by
  rintro rfl
  exact absurd text.colons (by decide)

theorem Ipv6Text.visible (text : Ipv6Text cased) : cased.all isVisible = true :=
  List.all_eq_true.mpr fun ch member => (text.chars ch member).1

theorem hostPart_bracketed {inner : List Char} (text : Ipv6Text cased) (all : Dots inner) (rest : List Char) :
    hostPart ('[' :: cased ++ inner ++ ']' :: rest) = cased ++ inner := by
  have inside : ∀ ch ∈ cased ++ inner, (ch != ']') = true := by
    intro ch member
    rw [bne_iff_ne]
    obtain member | member := List.mem_append.mp member
    · exact (text.chars ch member).2.2
    · rw [all ch member]
      decide
  have part : hostPart ('[' :: cased ++ inner ++ ']' :: rest) = (cased ++ inner ++ ']' :: rest).takeWhile (· != ']') := rfl
  rw [part, List.takeWhile_append_of_pos inside, List.takeWhile_cons_of_neg (by decide), List.append_nil]

/-- A bare literal has a colon before its last one, so nothing of it is taken for a port. -/
theorem hostPart_bare (text : Ipv6Text cased) (dots : List Char) : hostPart (cased ++ dots) = cased ++ dots := by
  have start : (cased ++ dots).head? ≠ some '[' := by
    obtain ⟨ch, tail, rfl⟩ := List.exists_cons_of_ne_nil text.nonempty
    intro bracket
    rw [List.cons_append, List.head?_cons] at bracket
    cases bracket
    exact (text.chars '[' List.mem_cons_self).2.1 rfl
  rw [hostPart_unbracketed start]
  have two : 2 ≤ (cased ++ dots).count ':' := by
    rw [List.count_append]
    have := text.colons
    omega
  obtain ⟨before, after, cut, colon⟩ := rsplitOnce_of_two two
  rw [cut]
  exact if_neg (by simp [colon])

end Literal

/-! ### The guard -/

section Guard

variable {allowed : List String} {written : List Char} {key : String} {origin : Option Bytes}

theorem checkMutationOrigin_refuses (visible : written.all isVisible = true)
    (host : authorityHost (String.ofList written) = some key) (foreign : isLocalHost key = false) (unlisted : key ∉ allowed) :
    checkMutationOrigin ⟨some (headerValue written), origin⟩ allowed = .error (.notLocal key) := by
  have read : (some (headerValue written)).bind headerText = some (String.ofList written) := headerText_headerValue visible
  unfold checkMutationOrigin
  simp only [read, host]
  rw [if_pos (by simp [foreign, unlisted])]
  rfl

theorem checkMutationOrigin_accepts (visible : written.all isVisible = true)
    (host : authorityHost (String.ofList written) = some key) (known : isLocalHost key = true ∨ key ∈ allowed) :
    checkMutationOrigin ⟨some (headerValue written), none⟩ allowed = .ok () := by
  have read : (some (headerValue written)).bind headerText = some (String.ofList written) := headerText_headerValue visible
  unfold checkMutationOrigin
  simp only [read, host]
  rw [if_neg]
  · rfl
  · obtain known | known := known <;> simp [known]

theorem originNames_originAuthority {origin : String} (named : originAuthority origin ≠ []) :
    OriginNames origin.toList (originAuthority origin) := by
  unfold originAuthority at named ⊢
  split
  · rename_i scheme rest found
    obtain ⟨joined, first⟩ := splitOncePattern_eq_some (by decide) found
    refine ⟨scheme, rest.dropWhile (· != '/'), ?_, first, fun member => ?_, ?_⟩
    · rw [List.takeWhile_append_dropWhile, joined]
    · exact absurd (List.mem_takeWhile_imp member) (by decide)
    · cases tail : rest.dropWhile (· != '/') with
      | nil => exact .inl rfl
      | cons ch tail' =>
        have slash := List.head?_dropWhile_not (· != '/') rest
        rw [tail, List.head?_cons] at slash
        exact .inr (congrArg some (by simpa using slash))
  · rename_i missing
    rw [missing] at named
    exact absurd rfl named

theorem trim_ne_nil {authority : String} (host : authorityHost authority = some key) : (trim authority).toList ≠ [] := by
  intro empty
  unfold authorityHost at host
  rw [empty] at host
  cases host

/-- A passed Origin names an authority, and it is the host's. -/
theorem checkMutationOrigin_origin {host : Option Bytes} {value : Bytes}
    (passes : checkMutationOrigin ⟨host, some value⟩ allowed = .ok ()) :
    ∃ hostText origin authority, host.bind headerText = some hostText ∧ headerText value = some origin ∧
      OriginNames origin.toList authority ∧ asciiLower authority = asciiLower (trim hostText).toList := by
  unfold checkMutationOrigin at passes
  simp only at passes
  split at passes
  · rename_i hostText read
    split at passes
    · rename_i key host
      split at passes
      · cases passes
      · split at passes
        · rename_i origin readable
          split at passes
          · cases passes
          · rename_i same
            have same : asciiLower (originAuthority origin) = asciiLower (trim hostText).toList := by
              by_contra differ
              exact same (.inr differ)
            refine ⟨hostText, origin, originAuthority origin, read, readable, originNames_originAuthority fun empty => ?_, same⟩
            have nothing : asciiLower (trim hostText).toList = [] := by rw [← same, empty]; rfl
            exact trim_ne_nil host (asciiLower_eq_nil.mp nothing)
        · cases passes
    · cases passes
  · cases passes

end Guard

/-! ### Names -/

namespace DnsName

theorem splitOn_text (n : DnsName) : n.text.splitOn '.' = n.labels := by
  refine List.splitOn_intercalate '.' (fun label member dot => ?_) n.named
  exact absurd (List.all_eq_true.mp (n.valid label member).2 '.' dot) (by decide)

theorem text_plain (n : DnsName) : Plain n.text where
  nonempty := by
    intro empty
    have labels := n.splitOn_text
    rw [empty] at labels
    exact (n.valid [] (by rw [← labels]; simp)).1 rfl
  chars := by
    refine List.all_eq_true.mpr fun ch member => ?_
    obtain rfl | ⟨label, among, member⟩ := @mem_of_mem_splitOn '.' ch n.text member
    · decide
    · rw [splitOn_text] at among
      have valid := List.all_eq_true.mp (n.valid label among).2 ch member
      simp only [isNameChar, Bool.and_eq_true, Bool.not_eq_true', ← Bool.not_eq_true, List.contains_iff_mem] at valid ⊢
      have among : "[:".toList ⊆ "[]:.".toList := by decide
      exact ⟨valid.1, fun special => valid.2 (among special)⟩
  last := by
    intro last
    obtain ⟨init, ending⟩ := List.getLast?_eq_some_iff.mp last
    have cut := List.splitOn_append_cons_self (a := '.') init []
    rw [← ending, splitOn_text] at cut
    exact (n.valid [] (by rw [cut]; simp)).1 rfl

theorem mem_text_dot (n : DnsName) : '.' ∈ n.text ↔ 2 ≤ n.labels.length := by
  rw [← splitOn_text, length_splitOn, ← List.count_pos_iff]
  omega

theorem isIpAddr_text {n : DnsName} (alphabetic : (n.labels.getLast n.named).all Char.isDigit = false) :
    isIpAddr n.text = false := by
  have ipv4 : isIpv4 n.text = false := by
    rw [← Bool.not_eq_true]
    intro ipv4
    have octet := isIpv4_octets ipv4 (n.labels.getLast n.named) (by rw [splitOn_text]; exact List.getLast_mem n.named)
    rw [List.all_eq_true.mpr (isDecOctet_digits octet).2] at alphabetic
    cases alphabetic
  have ipv6 : isIpv6 n.text = false := by
    rw [← Bool.not_eq_true]
    intro ipv6
    have colons := isIpv6_colons ipv6
    rw [List.count_eq_zero.mpr (n.text_plain.not_mem (by decide))] at colons
    omega
  unfold isIpAddr
  rw [ipv4, ipv6]
  rfl

/-- A rebindable name is not taken for a local one. -/
theorem isLocalHost_rebindable {allowed : List String} {n : DnsName} (rebindable : Rebindable allowed n) :
    isLocalHost n.key = false := by
  have dot : '.' ∈ asciiLower n.text := (mem_asciiLower (by decide)).mpr (n.mem_text_dot.mpr rebindable.dotted)
  have differ : n.key ≠ "localhost" := by
    intro same
    have inside : '.' ∈ n.key.toList := by rwa [key, String.toList_ofList]
    rw [same] at inside
    exact absurd inside (by decide)
  have suffix : localSuffixes.any (fun suffix => suffix.toList.isSuffixOf (asciiLower n.text)) = false := rebindable.global
  unfold isLocalHost
  rw [beq_eq_false_iff_ne.mpr differ]
  unfold key
  rw [String.toList_ofList, isIpAddr_asciiLower, isIpAddr_text rebindable.alphabetic, suffix, List.contains_iff_mem.mpr dot]
  rfl

theorem isLocalHost_single {n : DnsName} (single : n.labels.length = 1) : isLocalHost n.key = true := by
  have dotless : '.' ∉ asciiLower n.text := by
    rw [mem_asciiLower (by decide), mem_text_dot]
    omega
  simp [isLocalHost, key, dotless]

theorem isLocalHost_suffix {n : DnsName} (ends : n.hasLocalSuffix = true) : isLocalHost n.key = true := by
  have suffix : localSuffixes.any (fun suffix => suffix.toList.isSuffixOf (asciiLower n.text)) = true := ends
  unfold isLocalHost key
  rw [String.toList_ofList, suffix, Bool.or_true]

end DnsName

theorem isLocalHost_ip {host : List Char} (ip : isIpAddr host = true) : isLocalHost (String.ofList (asciiLower host)) = true := by
  unfold isLocalHost
  rw [String.toList_ofList, isIpAddr_asciiLower, ip]
  rfl

/-! ### Every request -/

theorem guard_refuses {allowed : List String} {n : DnsName} (rebindable : Rebindable allowed n) {written : List Char}
    (spelled : Spells n.text written) (origin : Option Bytes) :
    ∃ e, checkMutationOrigin ⟨some (headerValue written), origin⟩ allowed = .error e := by
  obtain ⟨visible, host⟩ := authorityHost_spells n.text_plain spelled
  exact ⟨_, checkMutationOrigin_refuses visible host (DnsName.isLocalHost_rebindable rebindable) rebindable.unlisted⟩

theorem guard_accepts_name {allowed : List String} {n : DnsName} {written : List Char} (spelled : Spells n.text written)
    (known : isLocalHost n.key = true ∨ n.key ∈ allowed) :
    checkMutationOrigin ⟨some (headerValue written), none⟩ allowed = .ok () := by
  obtain ⟨visible, host⟩ := authorityHost_spells n.text_plain spelled
  exact checkMutationOrigin_accepts visible host known

theorem guard_accepts_ipv6 {allowed : List String} {literal cased dots written : List Char} (ipv6 : isIpv6 literal = true)
    (same : asciiLower cased = asciiLower literal) (all : Dots dots) (visible : written.all isVisible = true)
    (part : hostPart written = cased ++ dots) :
    checkMutationOrigin ⟨some (headerValue written), none⟩ allowed = .ok () := by
  have text := isIpv6_text ipv6 same
  have host := authorityHost_of_hostPart visible part text.nonempty text.last all
  rw [same] at host
  exact checkMutationOrigin_accepts visible host (.inl (isLocalHost_ip (by simp [isIpAddr, ipv6])))

theorem guard_accepts {allowed : List String} {written : List Char} (trusted : Trusted allowed written) :
    checkMutationOrigin ⟨some (headerValue written), none⟩ allowed = .ok () := by
  cases trusted with
  | ipv4 ipv4 spelled =>
    obtain ⟨visible, host⟩ := authorityHost_spells (isIpv4_plain ipv4) spelled
    exact checkMutationOrigin_accepts visible host (.inl (isLocalHost_ip (by simp [isIpAddr, ipv4])))
  | bracketed ipv6 same innerDots outerDots valid =>
    have text := isIpv6_text ipv6 same
    refine guard_accepts_ipv6 ipv6 same innerDots ?_ (hostPart_bracketed text innerDots _)
    simp only [List.all_append, List.all_cons, text.visible, innerDots.visible, outerDots.visible, valid.visible]
    decide
  | bare ipv6 same all =>
    have text := isIpv6_text ipv6 same
    refine guard_accepts_ipv6 ipv6 same all ?_ (hostPart_bare text _)
    rw [List.all_append, text.visible, all.visible]
    rfl
  | label single spelled => exact guard_accepts_name spelled (.inl (DnsName.isLocalHost_single single))
  | suffix ends spelled => exact guard_accepts_name spelled (.inl (DnsName.isLocalHost_suffix ends))
  | listed member spelled => exact guard_accepts_name spelled (.inr member)

/-- Under any configuration: a rebindable name is refused in every spelling and with any Origin, a local or listed host is
let through in every spelling, and an Origin is let through only if it names the host. An entry of `allowed_hosts` lists
the name it spells. -/
theorem guard_decides (allowSettings : Bool) (cfg : Config) :
    (∀ n written origin, Rebindable (Dashboard.start allowSettings cfg).allowedHosts n → Spells n.text written →
      ∃ e, checkMutationOrigin ⟨some (headerValue written), origin⟩ (Dashboard.start allowSettings cfg).allowedHosts =
        .error e) ∧
    (∀ written, Trusted (Dashboard.start allowSettings cfg).allowedHosts written →
      checkMutationOrigin ⟨some (headerValue written), none⟩ (Dashboard.start allowSettings cfg).allowedHosts = .ok ()) ∧
    (∀ host value,
      checkMutationOrigin ⟨host, some value⟩ (Dashboard.start allowSettings cfg).allowedHosts = .ok () →
      ∃ hostText origin authority, host.bind headerText = some hostText ∧ headerText value = some origin ∧
        OriginNames origin.toList authority ∧ asciiLower authority = asciiLower (trim hostText).toList) ∧
    ∀ (n : DnsName) entry, entry ∈ cfg.allowedHosts → Spells n.text entry.toList →
      n.key ∈ (Dashboard.start allowSettings cfg).allowedHosts := by
  refine ⟨fun n written origin rebindable spelled => ?_, fun written trusted => ?_, fun host value passes => ?_,
    fun n entry member spelled => ?_⟩
  · exact guard_refuses rebindable spelled origin
  · exact guard_accepts trusted
  · exact checkMutationOrigin_origin passes
  · have host := (authorityHost_spells n.text_plain spelled).2
    rw [String.ofList_toList] at host
    exact List.mem_filterMap.mpr ⟨entry, member, host⟩

/-! ### Requests -/

def attackerExample : DnsName where
  labels := ["attacker".toList, "example".toList]
  named := by decide
  valid := by decide

theorem port_9090 : Port ":9090".toList := .inr ⟨"9090".toList, by decide, by decide⟩

theorem guard_decides_requests :
    (∃ e, checkMutationOrigin ⟨some (headerValue "Attacker.EXAMPLE.:9090".toList), none⟩
      (Dashboard.start true exampleConfig).allowedHosts = .error e) ∧
    checkMutationOrigin ⟨some (headerValue "[FE80::1]:9090".toList), none⟩
      (Dashboard.start true exampleConfig).allowedHosts = .ok () := by
  have decides := guard_decides true exampleConfig
  have spelled : Spells attackerExample.text "Attacker.EXAMPLE.:9090".toList := by
    refine ⟨"Attacker.EXAMPLE".toList, ['.'], ":9090".toList, by decide, by decide, ?_, port_9090⟩
    exact fun ch member => List.mem_singleton.mp member
  refine ⟨decides.1 attackerExample _ none ⟨by decide, by decide, by decide, by decide⟩ spelled, decides.2.1 _ ?_⟩
  have literal : isIpv6 "fe80::1".toList = true := by decide
  have none : Dots [] := List.forall_mem_nil _
  exact @Trusted.bracketed _ _ "FE80::1".toList [] [] _ literal (by decide) none none port_9090

end SoloPool
