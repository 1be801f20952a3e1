import SoloPool.Config.Overrides
import SoloPool.Lib.Faults

/-!
# Environment overrides, entry by entry

The loop reads each variable against tables that earlier variables may have written. Here its result and its error are said
of the file and the list of variables alone: a key keeps the kind of value it has in the file, or the kind its first variable
looks like, and the last variable that names it decides. In what order a process lists its variables makes no difference.
-/

namespace SoloPool.Overrides
open Lib

/-! ### What a variable names -/

def named (v : Var) : Option (String × String) := (target v.name).toOption.join

theorem named_eq_some {v : Var} {t : String × String} : named v = some t ↔ target v.name = .ok (some t) := by
  unfold named
  cases target v.name with
  | error e => exact iff_of_false nofun nofun
  | ok found => simp [Except.toOption]

/-- The variables that name an entry. -/
def naming (vars : List Var) (sect key : String) : List Var := vars.filter fun v => named v = some (sect, key)

def namesSection (vars : List Var) (sect : String) : Prop := ∃ v ∈ vars, (named v).map Prod.fst = some sect

instance (vars : List Var) (sect : String) : Decidable (namesSection vars sect) :=
  inferInstanceAs (Decidable (∃ v ∈ vars, (named v).map Prod.fst = some sect))

def appliedName (v : Var) : Option String := (named v).map fun t => t.1 ++ "." ++ t.2

section Naming

variable {vars : List Var} {v : Var} {sect key : String}

theorem naming_append_of_named (names : named v = some (sect, key)) :
    naming (vars ++ [v]) sect key = naming vars sect key ++ [v] := by
  simp [naming, names]

theorem naming_append_of_ne (other : named v ≠ some (sect, key)) : naming (vars ++ [v]) sect key = naming vars sect key := by
  simp [naming, other]

theorem namesSection_append :
    namesSection (vars ++ [v]) sect ↔ namesSection vars sect ∨ (named v).map Prod.fst = some sect := by
  unfold namesSection
  constructor
  · rintro ⟨w, among, names⟩
    obtain among | last := List.mem_append.mp among
    · exact .inl ⟨w, among, names⟩
    · rw [List.mem_singleton] at last
      exact .inr (last ▸ names)
  · rintro (⟨w, among, names⟩ | names)
    · exact ⟨w, List.mem_append_left _ among, names⟩
    · exact ⟨v, List.mem_append_right _ List.mem_cons_self, names⟩

theorem naming_eq_nil (unnamed : ¬ namesSection vars sect) (key : String) : naming vars sect key = [] := by
  rw [naming, List.filter_eq_nil_iff]
  intro v among names
  exact unnamed ⟨v, among, by rw [of_decide_eq_true names, Option.map_some]⟩

end Naming

/-! ### The tables after the variables -/

/-- The value of an entry, if its section is a table. -/
def entry (root : TomlTable) (sect key : String) : Option TomlValue := ((root sect).bind TomlValue.asTable).bind (· key)

theorem sectionTable_ok {root table : TomlTable} {sect : String} (found : sectionTable root sect = .ok table) :
    table = entry root sect := by
  unfold sectionTable at found
  unfold entry
  split at found
  · rename_i absent
    cases found
    rw [absent]
    rfl
  · rename_i present
    cases found
    rw [present]
    rfl
  · cases found

variable (parseF64 : String → Option F64)

/-- The value whose kind the next variable of an entry is read as: the file's, else what the entry's first variable looks
like. -/
def governing (old : Option TomlValue) (earlier : List Var) : Option TomlValue :=
  old <|> earlier.head?.map fun v => inferTomlScalar parseF64 v.raw

/-- An entry after the variables that name it. -/
def settled (old : Option TomlValue) (sect key : String) (vars : List Var) : Option TomlValue :=
  match vars.getLast? with
  | none => old
  | some last => (parsed parseF64 last.name sect key (governing parseF64 old vars.dropLast) last.raw).toOption

def overridden (root : TomlTable) (vars : List Var) : TomlTable := fun sect =>
  if namesSection vars sect then
    some (.table fun key => settled parseF64 (entry root sect key) sect key (naming vars sect key))
  else root sect

/-- What is wrong with a variable, after `earlier`. -/
def fault (root : TomlTable) (earlier : List Var) (v : Var) : Option OverrideError :=
  match target v.name with
  | .error e => some e
  | .ok none => none
  | .ok (some (sect, key)) =>
    errorOf (do
      let table ← sectionTable root sect
      parsed parseF64 v.name sect key (governing parseF64 (table key) (naming earlier sect key)) v.raw)

variable {parseF64} {root : TomlTable} {vars : List Var} {v : Var} {sect key : String}

theorem fault_of_named (names : target v.name = .ok (some (sect, key))) :
    fault parseF64 root vars v = errorOf (do
      let table ← sectionTable root sect
      parsed parseF64 v.name sect key (governing parseF64 (table key) (naming vars sect key)) v.raw) := by
  rw [fault, names]

theorem sectionTable_congr {root' : TomlTable} (same : root sect = root' sect) :
    sectionTable root sect = sectionTable root' sect := by
  unfold sectionTable
  rw [same]

theorem sectionTable_set (table : TomlTable) :
    sectionTable (Function.update root sect (some (.table table))) sect = .ok table := by
  unfold sectionTable
  rw [Function.update_self]

theorem entry_set (table : TomlTable) (value : TomlValue) (sect' key' : String) :
    entry (Function.update root sect (some (.table (Function.update table key (some value))))) sect' key' =
      if sect' = sect then if key' = key then some value else table key' else entry root sect' key' := by
  unfold entry
  by_cases here : sect' = sect
  · subst here
    rw [Function.update_self, if_pos rfl]
    by_cases same : key' = key
    · subst same
      rw [if_pos rfl]
      exact Function.update_self key' _ table
    · rw [if_neg same]
      exact Function.update_of_ne same _ table
  · rw [Function.update_of_ne here, if_neg here]

theorem entry_overridden : entry (overridden parseF64 root vars) sect key =
    settled parseF64 (entry root sect key) sect key (naming vars sect key) := by
  by_cases names : namesSection vars sect
  · unfold entry overridden
    rw [if_pos names]
    rfl
  · rw [naming_eq_nil names]
    unfold entry overridden
    rw [if_neg names]
    rfl

theorem settled_append {old : Option TomlValue} {earlier : List Var} {value : TomlValue}
    (read : parsed parseF64 v.name sect key (governing parseF64 old earlier) v.raw = .ok value) :
    settled parseF64 old sect key (earlier ++ [v]) = some value := by
  unfold settled
  rw [List.getLast?_concat, List.dropLast_concat]
  show (parsed parseF64 v.name sect key (governing parseF64 old earlier) v.raw).toOption = some value
  rw [read]
  rfl

theorem overridden_skip (unnamed : named v = none) : overridden parseF64 root (vars ++ [v]) = overridden parseF64 root vars := by
  funext sect
  have still : namesSection (vars ++ [v]) sect ↔ namesSection vars sect := by
    rw [namesSection_append, unnamed]
    exact or_iff_left nofun
  have entries : ∀ key, naming (vars ++ [v]) sect key = naming vars sect key := fun key =>
    naming_append_of_ne (by rw [unnamed]; nofun)
  unfold overridden
  simp only [still, entries]

/-- One variable more changes the entry it names and no other. -/
theorem overridden_set (names : named v = some (sect, key)) {value : TomlValue}
    (read : parsed parseF64 v.name sect key (governing parseF64 (entry root sect key) (naming vars sect key)) v.raw = .ok value) :
    overridden parseF64 root (vars ++ [v]) =
      Function.update (overridden parseF64 root vars) sect
        (some (.table (Function.update (entry (overridden parseF64 root vars) sect) key (some value)))) := by
  funext other
  by_cases here : other = sect
  · subst here
    rw [Function.update_self]
    unfold overridden
    rw [if_pos (namesSection_append.mpr (.inr (by rw [names, Option.map_some])))]
    congr 2
    funext k
    by_cases same : k = key
    · subst same
      rw [Function.update_self, naming_append_of_named names, settled_append read]
    · have differs : named v ≠ some (other, k) := by
        rw [names]
        intro equal
        exact same (Prod.ext_iff.mp (Option.some.inj equal)).2.symm
      rw [Function.update_of_ne same, naming_append_of_ne differs]
      exact entry_overridden.symm
  · have still : namesSection (vars ++ [v]) other ↔ namesSection vars other := by
      rw [namesSection_append, names]
      exact or_iff_left fun equal => here (Option.some.inj equal).symm
    have entries : ∀ k, naming (vars ++ [v]) other k = naming vars other k := by
      intro k
      apply naming_append_of_ne
      rw [names]
      intro equal
      exact here (Prod.ext_iff.mp (Option.some.inj equal)).1.symm
    rw [Function.update_of_ne here]
    unfold overridden
    simp only [still, entries]

/-! ### Kinds -/

/-- Double quotes force a string where the file has no value. -/
theorem inferTomlScalar_quoted (parseF64 : String → Option F64) (text : List Char) :
    inferTomlScalar parseF64 (String.ofList (quote :: text ++ [quote])) = .string (String.ofList text) := by
  have inner : unquote (quote :: text ++ [quote]) = some text := by
    have opened : [quote].isPrefixOf? (quote :: text ++ [quote]) = some (text ++ [quote]) :=
      List.isPrefixOf?_eq_some_iff_append_eq.mpr rfl
    unfold unquote
    rw [opened]
    exact List.isSuffixOf?_eq_some_iff_append_eq.mpr rfl
  unfold inferTomlScalar
  rw [String.toList_ofList, inner]

/-- A value is read as the kind of the one it replaces. -/
theorem parsed_kind {name raw : String} {old value : TomlValue}
    (read : parsed parseF64 name sect key (some old) raw = .ok value) : value.kind = old.kind := by
  cases old with
  | string s =>
    cases read
    rfl
  | integer i =>
    cases found : parseI64 raw.toList with
    | none => simp [parsed, found] at read
    | some i =>
      simp only [parsed, found, Option.map_some, Except.ok.injEq] at read
      exact read ▸ rfl
  | float f =>
    cases found : parseF64 raw with
    | none => simp [parsed, found] at read
    | some f =>
      simp only [parsed, found, Option.map_some, Except.ok.injEq] at read
      exact read ▸ rfl
  | boolean b =>
    cases found : parseBool raw with
    | none => simp [parsed, found] at read
    | some b =>
      simp only [parsed, found, Option.map_some, Except.ok.injEq] at read
      exact read ▸ rfl
  | datetime | array | table => cases read

/-- Of the value it replaces only the kind matters. -/
theorem parsed_congr {name raw : String} {old old' : Option TomlValue}
    (alike : old.map TomlValue.kind = old'.map TomlValue.kind) :
    parsed parseF64 name sect key old raw = parsed parseF64 name sect key old' raw := by
  obtain - | old := old <;> obtain - | old' := old'
  · rfl
  · cases alike
  · cases alike
  · have alike : old.kind = old'.kind := Option.some.inj alike
    cases old <;> cases old' <;> first | rfl | cases alike

theorem governing_append_of_some {old : Option TomlValue} {earlier : List Var} {value : TomlValue}
    (governed : governing parseF64 old earlier = some value) : governing parseF64 old (earlier ++ [v]) = some value := by
  unfold governing at governed ⊢
  cases old with
  | some old => exact governed
  | none =>
    cases earlier with
    | nil => cases governed
    | cons first rest => exact governed

theorem governing_append_of_none {old : Option TomlValue} {earlier : List Var} (free : governing parseF64 old earlier = none) :
    governing parseF64 old (earlier ++ [v]) = some (inferTomlScalar parseF64 v.raw) := by
  unfold governing at free ⊢
  cases old with
  | some old => cases free
  | none =>
    cases earlier with
    | nil => rfl
    | cons first rest => cases free

/-! ### The loop -/

theorem applyVar_of_error {s : Overridden} {e : OverrideError} (wrong : target v.name = .error e) :
    applyVar parseF64 s v = .error e := by
  unfold applyVar
  rw [wrong]
  rfl

theorem applyVar_of_other {s : Overridden} (other : target v.name = .ok none) : applyVar parseF64 s v = .ok s := by
  unfold applyVar
  rw [other]
  rfl

theorem applyVar_of_named {s : Overridden} (names : target v.name = .ok (some (sect, key))) :
    applyVar parseF64 s v = (do
      let table ← sectionTable s.root sect
      let value ← parsed parseF64 v.name sect key (table key) v.raw
      pure {
        root := Function.update s.root sect (some (.table (Function.update table key (some value))))
        applied := s.applied ++ [sect ++ "." ++ key]
      }) := by
  unfold applyVar
  rw [names]
  rfl

/-- After the variables `earlier`, none of them faulty, on the file `root`. -/
structure Overridden.Follows (parseF64 : String → Option F64) (root : TomlTable) (earlier : List Var) (s : Overridden) : Prop
    where
  written : s.root = overridden parseF64 root earlier
  listed : s.applied = earlier.filterMap appliedName
  tables : ∀ sect, errorOf (sectionTable s.root sect) = errorOf (sectionTable root sect)
  kinds : ∀ sect key, (entry s.root sect key).map TomlValue.kind =
    (governing parseF64 (entry root sect key) (naming earlier sect key)).map TomlValue.kind

theorem start_follows : Overridden.Follows parseF64 root [] { root, applied := [] } where
  written := by
    funext sect
    exact (if_neg (by rintro ⟨v, among, -⟩; cases among)).symm
  listed := rfl
  tables _ := rfl
  kinds sect key := by
    show (entry root sect key).map TomlValue.kind = (entry root sect key <|> none).map TomlValue.kind
    cases entry root sect key <;> rfl

namespace Overridden.Follows

variable {s t : Overridden}

/-- What a variable is read as does not depend on what the loop wrote. -/
theorem read (follows : s.Follows parseF64 root vars) (name raw sect key : String) :
    parsed parseF64 name sect key (entry s.root sect key) raw =
      parsed parseF64 name sect key (governing parseF64 (entry root sect key) (naming vars sect key)) raw :=
  parsed_congr (follows.kinds sect key)

/-- An entry that a variable was read into governs those that come after. -/
theorem kind (follows : s.Follows parseF64 root vars) {name : String} {value : TomlValue}
    (read : parsed parseF64 name sect key (entry s.root sect key) v.raw = .ok value) :
    (some value).map TomlValue.kind =
      (governing parseF64 (entry root sect key) (naming vars sect key ++ [v])).map TomlValue.kind := by
  have kinds := follows.kinds sect key
  cases present : entry s.root sect key with
  | none =>
    rw [present] at kinds read
    rw [governing_append_of_none (Option.map_eq_none_iff.mp kinds.symm)]
    cases read
    rfl
  | some old =>
    rw [present] at kinds read
    obtain ⟨value', governed, alike⟩ := Option.map_eq_some_iff.mp kinds.symm
    rw [governing_append_of_some governed, Option.map_some, Option.map_some, alike, parsed_kind read]

theorem judged (vars : List Var) (s : Overridden) (v : Var) (follows : s.Follows parseF64 root vars) :
    FirstFault (applyVar parseF64 s v) (fault parseF64 root vars v).toList := by
  cases names : target v.name with
  | error e =>
    rw [fault, names]
    exact applyVar_of_error names
  | ok found =>
    obtain - | ⟨sect, key⟩ := found
    · rw [fault, names]
      exact ⟨s, applyVar_of_other names⟩
    rw [fault_of_named names, applyVar_of_named names]
    have opened := firstFault_errorOf (sectionTable s.root sect)
    rw [follows.tables] at opened
    cases before : sectionTable root sect with
    | error e =>
      rw [before] at opened
      rw [show sectionTable s.root sect = .error e from opened]
      rfl
    | ok old =>
      rw [before] at opened
      obtain ⟨table, now⟩ := opened
      obtain rfl := sectionTable_ok now
      obtain rfl := sectionTable_ok before
      have read : parsed parseF64 v.name sect key (entry s.root sect key) v.raw = _ := follows.read v.name v.raw sect key
      rw [now]
      show FirstFault (parsed parseF64 v.name sect key (entry s.root sect key) v.raw >>= _)
        (errorOf (parsed parseF64 v.name sect key (governing parseF64 (entry root sect key) (naming vars sect key)) v.raw)).toList
      rw [← read]
      exact (firstFault_errorOf _).map _

/-- A variable that is none of the pool's changes nothing. -/
theorem kept_other (follows : s.Follows parseF64 root vars) (other : target v.name = .ok none) :
    s.Follows parseF64 root (vars ++ [v]) := by
  have unnamed : named v = none := by
    unfold named
    rw [other]
    rfl
  have entries : ∀ sect key, naming (vars ++ [v]) sect key = naming vars sect key := fun sect key =>
    naming_append_of_ne (by rw [unnamed]; nofun)
  exact {
    written := follows.written.trans (overridden_skip unnamed).symm
    listed := by
      rw [List.filterMap_append, ← follows.listed, List.filterMap_cons, appliedName, unnamed]
      exact (List.append_nil _).symm
    tables := follows.tables
    kinds := fun sect key => by rw [entries, follows.kinds]
  }

theorem kept_named (follows : s.Follows parseF64 root vars) (names : named v = some (sect, key)) {value : TomlValue}
    (found : sectionTable s.root sect = .ok (entry s.root sect))
    (read : parsed parseF64 v.name sect key (entry s.root sect key) v.raw = .ok value) :
    Overridden.Follows parseF64 root (vars ++ [v]) {
      root := Function.update s.root sect (some (.table (Function.update (entry s.root sect) key (some value))))
      applied := s.applied ++ [sect ++ "." ++ key]
    } := by
  have against := follows.read v.name v.raw sect key
  rw [read] at against
  have written := overridden_set names against.symm
  rw [← follows.written] at written
  exact {
    written := written.symm
    listed := by
      rw [List.filterMap_append, ← follows.listed, List.filterMap_cons, appliedName, names]
      rfl
    tables := fun other => by
      rw [← follows.tables]
      by_cases here : other = sect
      · subst here
        rw [found, sectionTable_set]
        rfl
      · exact congrArg errorOf (sectionTable_congr (Function.update_of_ne here _ _))
    kinds := fun other k => by
      rw [entry_set]
      by_cases same : other = sect ∧ k = key
      · obtain ⟨rfl, rfl⟩ := same
        rw [if_pos rfl, if_pos rfl, naming_append_of_named names]
        exact follows.kind read
      · have differs : named v ≠ some (other, k) := by
          rw [names]
          intro equal
          obtain ⟨rfl, rfl⟩ := Prod.ext_iff.mp (Option.some.inj equal)
          exact same ⟨rfl, rfl⟩
        rw [naming_append_of_ne differs, ← follows.kinds]
        split
        · rename_i here
          subst here
          rw [if_neg fun alike => same ⟨rfl, alike⟩]
        · rfl
  }

theorem kept (vars : List Var) (s : Overridden) (v : Var) (t : Overridden) (follows : s.Follows parseF64 root vars)
    (applied : applyVar parseF64 s v = .ok t) : t.Follows parseF64 root (vars ++ [v]) := by
  cases names : target v.name with
  | error e =>
    rw [applyVar_of_error names] at applied
    cases applied
  | ok found =>
    obtain - | ⟨sect, key⟩ := found
    · rw [applyVar_of_other names] at applied
      cases applied
      exact follows.kept_other names
    · rw [applyVar_of_named names] at applied
      obtain ⟨table, found, applied⟩ := except_bind_ok.mp applied
      obtain ⟨value, read, applied⟩ := except_bind_ok.mp applied
      obtain rfl := sectionTable_ok found
      cases applied
      exact follows.kept_named (named_eq_some.mpr names) found read

end Overridden.Follows

theorem loop_judged (parseF64 : String → Option F64) (root : TomlTable) (vars : List Var) :
    FirstFault (applyEnvOverrides parseF64 (.table root) vars) (faultsAfter (fault parseF64 root) [] vars) :=
  (FirstFault.foldlM Overridden.Follows.judged Overridden.Follows.kept start_follows).map _

theorem loop_follows {value : TomlValue} {applied : List String}
    (ran : applyEnvOverrides parseF64 (.table root) vars = .ok (value, applied)) :
    ∃ s : Overridden, s.Follows parseF64 root vars ∧ value = .table s.root ∧ applied = s.applied := by
  obtain ⟨s, folded, same⟩ := except_bind_ok.mp ran
  cases same
  exact ⟨s, foldlM_invariant Overridden.Follows.kept start_follows folded, rfl, rfl⟩

/-- The loop stops at the first variable that is faulty on the file and the variables before it. Without one, an entry of the
result is what the file and the variables that name it make it, in its kind. -/
theorem overrides_decided (parseF64 : String → Option F64) (root : TomlTable) (vars : List Var) :
    FirstFault (applyEnvOverrides parseF64 (.table root) vars) (faultsAfter (fault parseF64 root) [] vars) ∧
    ∀ value applied, applyEnvOverrides parseF64 (.table root) vars = .ok (value, applied) →
      value = .table (overridden parseF64 root vars) ∧ applied = vars.filterMap appliedName ∧
      ∀ sect key, (entry (overridden parseF64 root vars) sect key).map TomlValue.kind =
        (governing parseF64 (entry root sect key) (naming vars sect key)).map TomlValue.kind := by
  refine ⟨loop_judged parseF64 root vars, fun value applied ran => ?_⟩
  obtain ⟨s, follows, rfl, rfl⟩ := loop_follows ran
  refine ⟨by rw [follows.written], follows.listed, fun sect key => ?_⟩
  rw [← follows.written]
  exact follows.kinds sect key

/-- A file with one entry, and four variables of which one is none of the pool's. -/
def testFile : TomlTable
  | "pool" => some (.table fun key => if key = "initial_difficulty" then some (.integer 512) else none)
  | _ => none

def testVars : List Var := [
  { name := "SOLO_POOL_POOL__INITIAL_DIFFICULTY", raw := "1024" },
  { name := "PATH", raw := "/usr/bin" },
  { name := "SOLO_POOL_SV2__ENABLED", raw := "false" },
  { name := "SOLO_POOL_BITCOIN_RPC__USER", raw := "umbrel" }
]

theorem overrides_decided_typed : ∃ root, applyEnvOverrides (fun _ => none) (.table testFile) testVars =
      .ok (.table root, ["pool.initial_difficulty", "sv2.enabled", "bitcoin_rpc.user"]) ∧
    (entry root "pool" "initial_difficulty").map TomlValue.kind = some .integer ∧
    (entry root "sv2" "enabled").map TomlValue.kind = some .boolean ∧
    (entry root "bitcoin_rpc" "user").map TomlValue.kind = some .string := by
  obtain ⟨first, decided⟩ := overrides_decided (fun _ => none) testFile testVars
  obtain ⟨⟨value, applied⟩, ran⟩ := first.ok_iff.mpr rfl
  obtain ⟨rfl, rfl, kinds⟩ := decided value applied ran
  exact ⟨_, ran, kinds "pool" "initial_difficulty", kinds "sv2" "enabled", kinds "bitcoin_rpc" "user"⟩

/-! ### Order -/

/-- No two of the pool's variables have names that are the same up to case. -/
def CaseDistinct (vars : List Var) : Prop :=
  (vars.filter fun v => envPrefix.toList.isPrefixOf v.name.toList).Pairwise fun v w =>
    asciiLower v.name.toList ≠ asciiLower w.name.toList

/-- The name of an entry is that of its variable up to case. -/
theorem named_lower {t : String × String} (names : named v = some t) :
    envPrefix.toList.isPrefixOf v.name.toList = true ∧
      asciiLower v.name.toList = asciiLower envPrefix.toList ++ (t.1.toList ++ ['_', '_'] ++ t.2.toList) := by
  have names := named_eq_some.mp names
  unfold target at names
  split at names
  · cases names
  · rename_i rest ours
    have joined := List.append_eq_of_isPrefixOf?_eq_some ours
    split at names
    · cases names
    · rename_i sect key cut
      obtain ⟨split, -⟩ := splitOncePattern_eq_some (List.cons_ne_nil _ _) cut
      dsimp only at names
      split at names
      · cases names
      · cases names
        refine ⟨List.isPrefixOf_iff_prefix.mpr ⟨rest, joined⟩, ?_⟩
        rw [← joined, split, String.toList_ofList, String.toList_ofList]
        simp [asciiLower]

theorem CaseDistinct.apart (distinct : CaseDistinct vars) :
    vars.Pairwise fun v w => ∀ t, named v = some t → named w ≠ some t := by
  refine (List.pairwise_filter.mp distinct).imp ?_
  intro v w differ t first second
  obtain ⟨ours, name⟩ := named_lower first
  obtain ⟨ours', name'⟩ := named_lower second
  exact differ ours ours' (name.trans name'.symm)

theorem CaseDistinct.perm {vars' : List Var} (distinct : CaseDistinct vars) (reordered : vars.Perm vars') : CaseDistinct vars' :=
  ((reordered.filter _).pairwise_iff fun differ => differ.symm).mp distinct

/-- An entry is named at most once. -/
theorem CaseDistinct.naming_short (distinct : CaseDistinct vars) (sect key : String) : (naming vars sect key).length ≤ 1 := by
  have apart := distinct.apart.filter fun v => named v = some (sect, key)
  have alike : ∀ v ∈ naming vars sect key, named v = some (sect, key) := fun v among =>
    of_decide_eq_true (List.mem_filter.mp among).2
  match short : naming vars sect key with
  | [] | [_] => simp
  | v :: w :: rest =>
    rw [← naming, short] at apart
    rw [short] at alike
    have clash := List.rel_of_pairwise_cons apart (List.mem_cons_self (a := w)) (sect, key)
    exact absurd (alike w (by simp)) (clash (alike v List.mem_cons_self))

theorem CaseDistinct.naming_perm {vars' : List Var} (distinct : CaseDistinct vars) (reordered : vars.Perm vars')
    (sect key : String) : naming vars sect key = naming vars' sect key := by
  have perm : (naming vars sect key).Perm (naming vars' sect key) := reordered.filter _
  have short := distinct.naming_short sect key
  match once : naming vars sect key with
  | [] =>
    rw [once] at perm
    exact perm.nil_eq
  | [v] =>
    rw [once] at perm
    exact List.singleton_perm.mp perm
  | _ :: _ :: _ =>
    rw [once] at short
    exact absurd short (by simp)

theorem CaseDistinct.overridden_perm {vars' : List Var} (distinct : CaseDistinct vars) (reordered : vars.Perm vars') :
    overridden parseF64 root vars = overridden parseF64 root vars' := by
  funext sect
  have sections : namesSection vars sect ↔ namesSection vars' sect := by
    unfold namesSection
    simp only [reordered.mem_iff]
  unfold overridden
  simp only [sections, distinct.naming_perm reordered]

/-- What is wrong with a variable when it is the only one. -/
def alone (parseF64 : String → Option F64) (root : TomlTable) (v : Var) : Option OverrideError :=
  errorOf (applyEnvOverrides parseF64 (.table root) [v])

theorem fault_nil (v : Var) : fault parseF64 root [] v = alone parseF64 root v := by
  have single : FirstFault (applyEnvOverrides parseF64 (.table root) [v]) (fault parseF64 root [] v).toList := by
    simpa [faultsAfter] using loop_judged parseF64 root [v]
  exact (errorOf_of_firstFault single).symm

theorem CaseDistinct.fault_eq_alone {before after : List Var} (distinct : CaseDistinct (before ++ v :: after)) :
    fault parseF64 root before v = alone parseF64 root v := by
  rw [← fault_nil]
  unfold fault
  split
  · rfl
  · rfl
  · rename_i sect key names
    have unnamed : naming before sect key = [] := by
      rw [naming, List.filter_eq_nil_iff]
      intro w among same
      have apart := (List.pairwise_append.mp distinct.apart).2.2 w among v List.mem_cons_self
      exact apart (sect, key) (of_decide_eq_true same) (named_eq_some.mpr names)
    rw [unnamed]
    rfl

/-- Where no two names differ in case only, the order of the variables decides nothing but which of several errors is
reported: it is the error of the first variable that is faulty by itself. -/
theorem overrides_any_order (parseF64 : String → Option F64) (root : TomlTable) {vars : List Var}
    (distinct : CaseDistinct vars) :
    FirstFault (applyEnvOverrides parseF64 (.table root) vars) (vars.filterMap (alone parseF64 root)) ∧
    ∀ vars' value applied, vars.Perm vars' → applyEnvOverrides parseF64 (.table root) vars = .ok (value, applied) →
      ∃ applied', applyEnvOverrides parseF64 (.table root) vars' = .ok (value, applied') ∧ applied.Perm applied' := by
  have judged : ∀ {vars}, CaseDistinct vars →
      FirstFault (applyEnvOverrides parseF64 (.table root) vars) (vars.filterMap (alone parseF64 root)) := by
    intro vars distinct
    have each : ∀ before v after, vars = before ++ v :: after →
        fault parseF64 root ([] ++ before) v = alone parseF64 root v := by
      rintro before v after rfl
      exact distinct.fault_eq_alone
    rw [← faultsAfter_eq each]
    exact loop_judged parseF64 root vars
  refine ⟨judged distinct, fun vars' value applied reordered ran => ?_⟩
  have faultless : vars.filterMap (alone parseF64 root) = [] := (judged distinct).ok_iff.mp ⟨_, ran⟩
  have faultless' : vars'.filterMap (alone parseF64 root) = [] := by
    have perm := reordered.filterMap (alone parseF64 root)
    rw [faultless] at perm
    exact perm.nil_eq.symm
  obtain ⟨⟨value', applied'⟩, ran'⟩ := (judged (distinct.perm reordered)).ok_iff.mpr faultless'
  obtain ⟨s, follows, rfl, rfl⟩ := loop_follows ran
  obtain ⟨t, follows', rfl, rfl⟩ := loop_follows ran'
  have same : t.root = s.root := by rw [follows.written, follows'.written, distinct.overridden_perm reordered]
  refine ⟨t.applied, by rw [ran', same], ?_⟩
  rw [follows.listed, follows'.listed]
  exact reordered.filterMap appliedName

theorem overrides_any_order_reversed : ∃ value applied applied',
    applyEnvOverrides (fun _ => none) (.table testFile) testVars = .ok (value, applied) ∧
    applyEnvOverrides (fun _ => none) (.table testFile) testVars.reverse = .ok (value, applied') ∧ applied.Perm applied' := by
  have distinct : CaseDistinct testVars := by
    unfold CaseDistinct
    decide
  obtain ⟨first, reordered⟩ := overrides_any_order (fun _ => none) testFile distinct
  obtain ⟨⟨value, applied⟩, ran⟩ := first.ok_iff.mpr rfl
  obtain ⟨applied', ran', perm⟩ := reordered testVars.reverse value applied (List.reverse_perm testVars).symm ran
  exact ⟨value, applied, applied', ran, ran', perm⟩

end SoloPool.Overrides
