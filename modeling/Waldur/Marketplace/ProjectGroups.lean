import Mathlib
import Waldur.Lib.FirstFree
import Waldur.Lib.PythonDigits
import Waldur.Lib.PythonText

/-!
# Marketplace.ProjectGroups — the names of project groups

The name of a project's POSIX group is the slug, or the slug cut to make room for a number.  The names to compare with
are fetched by the first eight characters of the slug: a slug with a row of dashes is cut to fewer, so that a taken
name may go unnoticed.  `Findable` is the exact condition.
-/

namespace Waldur.Marketplace.ProjectGroups

open PythonText FirstFree

/-! ## Names -/

/-- `NAME_MAX_LENGTH`. -/
def nameMaxLength : ℕ := 32

/-- `[a-z0-9_-]`. -/
def isNameChar (c : Char) : Bool := c.isLower || c.isDigit || c == '_' || c == '-'

/-- `is_valid_name`: the `NAME_PATTERN` is `[a-z_][a-z0-9_-]{0,31}`. -/
def isValidName : List Char → Bool
  | [] => false
  | c :: l => (c.isLower || c == '_') && l.all isNameChar && decide (l.length ≤ 31)

/-- `str.lower`.  Of the characters outside of ASCII, two have an ASCII letter in lower case. -/
def lower (l : List Char) : List Char :=
  l.flatMap fun c =>
    if c = '\u0130' then ['i', '\u0307'] else if c = '\u212A' then ['k'] else [c.toLower]

structure Project where
  id : ℕ
  slug : Option String
  uuid : Uuid

/-- A row of `ServiceProviderProjectGroup`. -/
structure GroupRow where
  project : Option ℕ
  name : List Char
deriving DecidableEq

/-- A group of the provider; its name is a group name in some letter case. -/
structure ProjectGroup extends GroupRow where
  valid : isValidName (name.map Char.toLower) = true

/-- `_INVALID_NAME_CHARS.sub("-", name)`. -/
def subInvalid : List Char → List Char
  | [] => []
  | [c] => [if isNameChar c then c else '-']
  | c :: d :: l =>
    if isNameChar c then c :: subInvalid (d :: l)
    else if isNameChar d then '-' :: subInvalid (d :: l)
    else subInvalid (d :: l)

/-- `_base_name`. -/
def baseName (project : Project) : List Char :=
  let name := (strip (· == '-') (subInvalid (lower (project.slug.getD "").toList))).take nameMaxLength
  match name with
  | [] => 'p' :: (hex project.uuid).toList.take 8
  | c :: _ => if !c.isLower then 'p' :: (hex project.uuid).toList.take 8 else name

/-- `l[:stop]`. -/
def sliceTo (l : List Char) (stop : ℤ) : List Char :=
  if 0 ≤ stop then l.take stop.toNat else l.take (l.length - stop.natAbs)

/-- `l.rstrip("-")`. -/
def rstripDash (l : List Char) : List Char := l.rdropWhile (· == '-')

/-- The tail `-N`. -/
def tailOf (suffix : ℕ) : List Char := '-' :: Nat.toDigits 10 suffix

/-- The name that `_free_name` tries with a suffix; the base comes first. -/
def candidate (base : List Char) (suffix : ℕ) : List Char :=
  if suffix = 1 then base
  else rstripDash (sliceTo base (nameMaxLength - (tailOf suffix).length)) ++ tailOf suffix

/-- The names that `_free_name` compares with: those that start with `base[:8]`, ignoring case. -/
def takenNames (groups : List ProjectGroup) (base : List Char) : List (List Char) :=
  (groups.map fun group => group.name.map Char.toLower).filter fun name => (base.take 8).isPrefixOf name

/-- `_free_name`; there are enough rounds (`freeName_eq`). -/
def freeName (groups : List ProjectGroup) (project : Project) : Option (List Char) :=
  let base := baseName project
  let taken := takenNames groups base
  firstFree (candidate base) taken (taken.length + 2) 1

/-! ## Groups -/

inductive GroupError
  | groupNameTaken
  | integrityError
  | dataError
  | endlessLoop
deriving DecidableEq, Repr

/-- `ServiceProviderProjectGroup.objects.create`: a name has at most 32 characters, a project one group, and names
differ in more than letter case. -/
def create (groups : List ProjectGroup) (project : Project) (name : List Char) : Except GroupError GroupRow :=
  if nameMaxLength < name.length then .error .dataError
  else if groups.any fun group =>
      group.project == some project.id || group.name.map Char.toLower == name.map Char.toLower then
    .error .integrityError
  else .ok ⟨some project.id, name⟩

/-- The name that a round of `get_or_create_group` takes. -/
def candidateName (groups : List ProjectGroup) (project : Project) : Option (List Char) → Except GroupError (List Char)
  | some (c :: l) =>
    if groups.any fun group => group.name.map Char.toLower == (c :: l).map Char.toLower then .error .groupNameTaken
    else .ok (c :: l)
  | _ =>
    match freeName groups project with
    | some name => .ok name
    | none => .error .endlessLoop

/-- The rounds of `get_or_create_group`, without concurrent writers. -/
def attempts (groups : List ProjectGroup) (project : Project) (name : Option (List Char)) :
    ℕ → Except GroupError (GroupRow × Bool)
  | 0 => .error .integrityError
  | n + 1 =>
    match groups.find? fun group => group.project == some project.id with
    | some group => .ok (group.toGroupRow, false)
    | none => do
      let candidate ← candidateName groups project name
      match create groups project candidate with
      | .ok group => return (group, true)
      | .error .integrityError => attempts groups project name n
      | .error e => throw e

/-- `get_or_create_group`. -/
def getOrCreateGroup (groups : List ProjectGroup) (project : Project) (name : Option (List Char)) :
    Except GroupError (GroupRow × Bool) :=
  attempts groups project name 5

/-! ## Found names -/

/-- A group of the provider has the name, in some letter case. -/
def InUse (groups : List ProjectGroup) (name : List Char) : Prop :=
  ∃ group ∈ groups, group.name.map Char.toLower = name.map Char.toLower

/-- A name that a new group may take. -/
structure IsFree (groups : List ProjectGroup) (name : List Char) : Prop where
  valid : isValidName name = true
  short : name.length ≤ nameMaxLength
  unused : ¬ InUse groups name

/-- `_free_name` ends with a free name, and the group of the project is created or there already. -/
def Found (groups : List ProjectGroup) (project : Project) : Prop :=
  (∃ name, freeName groups project = some name ∧ IsFree groups name) ∧
    ∃ result, getOrCreateGroup groups project none = .ok result

/-- A name that is compared with. -/
def Fetched (base name : List Char) : Prop := base.take 8 <+: name

/-- **Where a name is found**: no candidate in use escapes the names fetched while the candidates before it are all
fetched and in use, and not all of the candidates of up to 30 digits are in use. -/
structure Findable (groups : List ProjectGroup) (base : List Char) : Prop where
  fetched : ∀ k, 1 ≤ k →
    (∀ j, 1 ≤ j → j < k → InUse groups (candidate base j) ∧ Fetched base (candidate base j)) →
      InUse groups (candidate base k) → Fetched base (candidate base k)
  room : ∃ k, 1 ≤ k ∧ k < 10 ^ 30 ∧ ¬ InUse groups (candidate base k)

section Names

variable {c : Char} {l l' d d' r base name : List Char} {i j k : ℕ} {project : Project} {groups : List ProjectGroup}

theorem isNameChar_dash : isNameChar '-' = true := by decide

theorem isNameChar_of_isLower (h : c.isLower = true) : isNameChar c = true := by
  unfold isNameChar
  rw [h, Bool.true_or, Bool.true_or, Bool.true_or]

theorem isNameChar_of_isDigit (h : c.isDigit = true) : isNameChar c = true := by
  unfold isNameChar
  rw [h, Bool.or_true, Bool.true_or, Bool.true_or]

/-- The characters of a name are in lower case. -/
theorem toLower_of_isNameChar (h : isNameChar c = true) : c.toLower = c := by
  have hupper : ¬ (c.val ≥ 'A'.val ∧ c.val ≤ 'Z'.val) := by
    unfold isNameChar Char.isLower Char.isDigit at h
    simp only [Bool.or_eq_true, Bool.and_eq_true, decide_eq_true_eq, beq_iff_eq] at h
    rintro ⟨hA, hZ⟩
    rcases h with ((⟨ha, -⟩ | ⟨-, hnine⟩) | rfl) | rfl
    · exact absurd (UInt32.le_trans ha hZ) (by decide)
    · exact absurd (UInt32.le_trans hA hnine) (by decide)
    · exact absurd hZ (by decide)
    · exact absurd hA (by decide)
  unfold Char.toLower
  exact dif_neg hupper

theorem map_toLower (h : ∀ c ∈ l, isNameChar c = true) : l.map Char.toLower = l :=
  (List.map_congr_left fun c hc => toLower_of_isNameChar (h c hc)).trans (List.map_id l)

theorem isNameChar_of_mem_subInvalid (h : c ∈ subInvalid l) : isNameChar c = true := by
  fun_induction subInvalid l with
  | case1 => cases h
  | case2 d =>
    rw [List.mem_singleton.mp h]
    split_ifs with hd
    · exact hd
    · exact isNameChar_dash
  | case3 a d l ha ih =>
    rcases List.mem_cons.mp h with rfl | h
    · exact ha
    · exact ih h
  | case4 a d l ha hd ih =>
    rcases List.mem_cons.mp h with rfl | h
    · exact isNameChar_dash
    · exact ih h
  | case5 a d l ha hd ih => exact ih h

/-- A base name starts with a letter and fits. -/
structure IsBase (base : List Char) : Prop where
  head : ∃ c l, base = c :: l ∧ c.isLower = true
  chars : ∀ c ∈ base, isNameChar c = true
  short : base.length ≤ nameMaxLength

theorem mem_of_mem_strip {p : Char → Bool} (h : c ∈ strip p l) : c ∈ l := by
  unfold strip at h
  rw [List.mem_reverse] at h
  have hmem := (List.dropWhile_sublist p).mem h
  rw [List.mem_reverse] at hmem
  exact (List.dropWhile_sublist p).mem hmem

theorem isNameChar_hex {u : Uuid} (h : c ∈ (hex u).toList) : isNameChar c = true := by
  unfold hex at h
  rw [String.toList_ofList] at h
  obtain ⟨n, hn, rfl⟩ := mem_hexDigits h
  interval_cases n <;> decide

theorem isBase_uuid (u : Uuid) : IsBase ('p' :: (hex u).toList.take 8) := by
  refine ⟨⟨'p', _, rfl, by decide⟩, fun c hc => ?_, ?_⟩
  · rcases List.mem_cons.mp hc with rfl | hc
    · decide
    · exact isNameChar_hex (List.mem_of_mem_take hc)
  · rw [List.length_cons, List.length_take]
    unfold nameMaxLength
    omega

theorem isBase_baseName (project : Project) : IsBase (baseName project) := by
  unfold baseName
  simp only
  split
  · exact isBase_uuid _
  · rename_i c l heq
    split_ifs with hlower
    · exact isBase_uuid _
    · rw [heq]
      refine ⟨⟨c, l, rfl, by simpa using hlower⟩, fun d hd => ?_, ?_⟩
      · rw [← heq] at hd
        exact isNameChar_of_mem_subInvalid (mem_of_mem_strip (List.mem_of_mem_take hd))
      · rw [← heq, List.length_take]
        exact Nat.min_le_left _ _

theorem isValidName_iff : isValidName l = true ↔
    (∃ c r, l = c :: r ∧ (c.isLower = true ∨ c = '_')) ∧ (∀ c ∈ l, isNameChar c = true) ∧ l.length ≤ 32 := by
  cases l with
  | nil => exact iff_of_false Bool.false_ne_true fun ⟨⟨c, r, h, _⟩, _⟩ => by cases h
  | cons c r =>
    unfold isValidName
    simp only [Bool.and_eq_true, Bool.or_eq_true, beq_iff_eq, List.all_eq_true, decide_eq_true_eq, List.mem_cons,
      forall_eq_or_imp, List.length_cons, List.cons.injEq, Nat.succ_le_succ_iff]
    constructor
    · rintro ⟨⟨hc, hr⟩, hlength⟩
      refine ⟨⟨c, r, ⟨rfl, rfl⟩, hc⟩, ⟨?_, hr⟩, hlength⟩
      rcases hc with hlower | rfl
      · exact isNameChar_of_isLower hlower
      · decide
    · rintro ⟨⟨c', r', ⟨rfl, rfl⟩, hc⟩, ⟨-, hr⟩, hlength⟩
      exact ⟨⟨hc, hr⟩, by omega⟩

theorem IsBase.valid (h : IsBase base) : isValidName base = true := by
  obtain ⟨c, l, rfl, hc⟩ := h.head
  exact isValidName_iff.mpr ⟨⟨c, l, rfl, .inl hc⟩, h.chars, h.short⟩

/-! ### The candidates -/

theorem length_tailOf (k : ℕ) : (tailOf k).length = (Nat.toDigits 10 k).length + 1 := rfl

theorem length_tailOf_le : (tailOf k).length ≤ 31 ↔ k < 10 ^ 30 := by
  rw [length_tailOf, ← Nat.length_toDigits_le_iff (by omega : 1 < 10) (by omega : 0 < 30)]
  omega

theorem isNameChar_tailOf : ∀ c ∈ tailOf k, isNameChar c = true := by
  intro c hc
  rcases List.mem_cons.mp hc with rfl | hc
  · exact isNameChar_dash
  · exact isNameChar_of_isDigit (isDigit_toDigits c hc)

/-- With a number of up to 30 digits a candidate has a beginning of the base. -/
theorem candidate_cut (h : IsBase base) (hk : k ≠ 1) (hsmall : k < 10 ^ 30) :
    ∃ r, r <+: base ∧ r ≠ [] ∧ candidate base k = r ++ tailOf k ∧ r.length + (tailOf k).length ≤ 32 := by
  have hlength := length_tailOf_le.mpr hsmall
  obtain ⟨c, l, rfl, hc⟩ := h.head
  have hslice : sliceTo (c :: l) (nameMaxLength - (tailOf k).length) = (c :: l).take (32 - (tailOf k).length) := by
    unfold sliceTo nameMaxLength
    rw [if_pos (by omega)]
    congr 1
    omega
  obtain ⟨n, hn⟩ : ∃ n, 32 - (tailOf k).length = n + 1 := ⟨31 - (tailOf k).length, by omega⟩
  refine ⟨rstripDash ((c :: l).take (32 - (tailOf k).length)), ?_, ?_, ?_, ?_⟩
  · exact (List.rdropWhile_prefix _ _).trans (List.take_prefix _ _)
  · unfold rstripDash
    rw [hn, List.take_succ_cons, ne_eq, List.rdropWhile_eq_nil_iff]
    intro hall
    have hdash := hall c List.mem_cons_self
    rw [beq_iff_eq] at hdash
    rw [hdash] at hc
    exact absurd hc (by decide)
  · unfold candidate
    rw [if_neg hk, hslice]
  · have hle := (List.rdropWhile_prefix (· == '-') ((c :: l).take (32 - (tailOf k).length))).length_le
    rw [List.length_take] at hle
    unfold rstripDash
    omega

theorem isValidName_append (h : IsBase base) (hr : r <+: base) (hne : r ≠ []) (hl : ∀ c ∈ l, isNameChar c = true)
    (hlength : r.length + l.length ≤ 32) : isValidName (r ++ l) = true := by
  obtain ⟨c, b, rfl, hc⟩ := h.head
  cases r with
  | nil => exact absurd rfl hne
  | cons a r =>
    obtain ⟨rfl, -⟩ := List.cons_prefix_cons.mp hr
    refine isValidName_iff.mpr ⟨⟨a, r ++ l, rfl, .inl hc⟩, fun x hx => ?_, by rw [List.length_append]; exact hlength⟩
    rcases List.mem_append.mp hx with hx | hx
    · exact h.chars x (hr.mem hx)
    · exact hl x hx

/-- A candidate is a group name exactly if its number has up to 30 digits. -/
theorem candidate_valid (h : IsBase base) (hk : 1 ≤ k) : isValidName (candidate base k) = true ↔ k < 10 ^ 30 := by
  by_cases hone : k = 1
  · subst hone
    exact iff_of_true h.valid (by norm_num)
  · constructor
    · intro hvalid
      by_contra hlarge
      have hlength : 32 ≤ (tailOf k).length := by
        have hlong := mt length_tailOf_le.mp hlarge
        omega
      obtain ⟨⟨c, r, hhead, hc⟩, -, hshort⟩ := isValidName_iff.mp hvalid
      unfold candidate at hhead hshort
      rw [if_neg hone] at hhead hshort
      rw [List.length_append] at hshort
      -- There is no room for the base.
      have hnil : rstripDash (sliceTo base (nameMaxLength - (tailOf k).length)) = [] :=
        List.eq_nil_of_length_eq_zero (by omega)
      rw [hnil, List.nil_append] at hhead
      obtain ⟨rfl, -⟩ := List.cons.inj hhead
      revert hc
      decide
    · intro hsmall
      obtain ⟨r, hr, hne, heq, hlength⟩ := candidate_cut h hone hsmall
      rw [heq]
      exact isValidName_append h hr hne isNameChar_tailOf hlength

/-- A candidate ends with its number. -/
theorem candidate_inj (hi : 2 ≤ i) (hj : 2 ≤ j) (h : candidate base i = candidate base j) : i = j := by
  have hdash : ∀ k, '-' ∉ Nat.toDigits 10 k := fun k hmem => absurd (isDigit_toDigits _ hmem) (by decide)
  unfold candidate tailOf at h
  rw [if_neg (by omega), if_neg (by omega)] at h
  have hdigits := (last_separator h (hdash i) (hdash j)).2
  rw [← readDigits_toDigits (n := i), hdigits, readDigits_toDigits]

theorem isNameChar_candidate (h : IsBase base) : ∀ c ∈ candidate base k, isNameChar c = true := by
  intro c hc
  unfold candidate at hc
  split_ifs at hc with hone
  · exact h.chars c hc
  · rcases List.mem_append.mp hc with hc | hc
    · have hslice : c ∈ sliceTo base (nameMaxLength - (tailOf k).length) := (List.rdropWhile_prefix _ _).mem hc
      unfold sliceTo at hslice
      split_ifs at hslice with hnonneg
      · exact h.chars c (List.mem_of_mem_take hslice)
      · exact h.chars c (List.mem_of_mem_take hslice)
    · exact isNameChar_tailOf c hc

theorem mem_takenNames (h : ∀ c ∈ name, isNameChar c = true) :
    name ∈ takenNames groups base ↔ InUse groups name ∧ Fetched base name := by
  unfold takenNames InUse Fetched
  rw [List.mem_filter, List.mem_map, List.isPrefixOf_iff_prefix, map_toLower h]

end Names

section Search

variable {project : Project} {groups : List ProjectGroup} {base : List Char} {n : ℕ}

/-- **`_free_name` ends**, at the first candidate that is not among the names fetched. -/
theorem freeName_eq (groups : List ProjectGroup) (project : Project) :
    ∃ n, IsFirstFree (candidate (baseName project)) (takenNames groups (baseName project)) 1 n ∧
      freeName groups project = some (candidate (baseName project) n) :=
  firstFree_total (by omega : 1 ≤ 2) (fun _ _ hi hj heq => candidate_inj hi hj heq) (by omega)

/-- The candidate at which the search ends is free where the conditions hold. -/
theorem isFree_iff (hbase : IsBase base) (hn : IsFirstFree (candidate base) (takenNames groups base) 1 n) :
    IsFree groups (candidate base n) ↔ Findable groups base := by
  obtain ⟨hone, hfree, htaken⟩ := hn
  have hmem : ∀ k, candidate base k ∈ takenNames groups base ↔
      InUse groups (candidate base k) ∧ Fetched base (candidate base k) :=
    fun k => mem_takenNames (isNameChar_candidate hbase)
  rw [hmem] at hfree
  constructor
  · intro h
    refine ⟨fun k hk hearlier huse => ?_, n, hone, (candidate_valid hbase hone).mp h.valid, h.unused⟩
    rcases lt_trichotomy k n with hlt | rfl | hgt
    · exact ((hmem k).mp (htaken k hk hlt)).2
    · exact absurd huse h.unused
    · exact absurd (hearlier n hone hgt) hfree
  · intro h
    have hunused : ¬ InUse groups (candidate base n) := fun huse =>
      hfree ⟨huse, h.fetched n hone (fun j hj hlt => (hmem j).mp (htaken j hj hlt)) huse⟩
    -- The search goes no further than a candidate that is not in use.
    obtain ⟨k, hk, hsmall, hroom⟩ := h.room
    have hle : n ≤ k := not_lt.mp fun hlt => hroom ((hmem k).mp (htaken k hk hlt)).1
    have hvalid := (candidate_valid hbase hone).mpr (hle.trans_lt hsmall)
    exact ⟨hvalid, (isValidName_iff.mp hvalid).2.2, hunused⟩

theorem create_eq (hfind : groups.find? (fun group => group.project == some project.id) = none) {name : List Char}
    (h : IsFree groups name) : create groups project name = .ok ⟨some project.id, name⟩ := by
  have hnone : (groups.any fun group =>
      group.project == some project.id || group.name.map Char.toLower == name.map Char.toLower) = false := by
    rw [List.any_eq_false]
    intro group hgroup
    rw [Bool.or_eq_true, not_or]
    exact ⟨List.find?_eq_none.mp hfind group hgroup, fun heq => h.unused ⟨group, hgroup, beq_iff_eq.mp heq⟩⟩
  unfold create
  rw [if_neg (not_lt.mpr h.short), hnone]
  rfl

/-- A free name makes a group, in the first round. -/
theorem getOrCreateGroup_ok {name : List Char} (hname : freeName groups project = some name) (h : IsFree groups name) :
    ∃ result, getOrCreateGroup groups project none = .ok result := by
  unfold getOrCreateGroup attempts
  cases hfind : groups.find? fun group => group.project == some project.id with
  | some group => exact ⟨_, rfl⟩
  | none =>
    unfold candidateName
    simp only [hname, bind, Except.bind, create_eq hfind h]
    exact ⟨_, rfl⟩

/-- **When a free name is found**: exactly where the names fetched cover the candidates that are tried. -/
theorem found_iff (groups : List ProjectGroup) (project : Project) :
    Found groups project ↔ Findable groups (baseName project) := by
  obtain ⟨n, hn, hname⟩ := freeName_eq groups project
  rw [← isFree_iff (isBase_baseName project) hn]
  constructor
  · rintro ⟨⟨name, heq, hfree⟩, -⟩
    rw [hname] at heq
    obtain rfl := Option.some.inj heq
    exact hfree
  · intro hfree
    exact ⟨⟨_, hname, hfree⟩, getOrCreateGroup_ok hname hfree⟩

end Search

/-! ### A slug with a row of dashes -/

theorem zero_uuid : 0 < 2 ^ 128 := by decide

def dashed : Project := ⟨3, some "a------------------------------b", ⟨0, zero_uuid⟩⟩

def dashedGroup : ProjectGroup := ⟨⟨some 1, "a------------------------------b".toList⟩, by decide⟩

def shortGroup : ProjectGroup := ⟨⟨some 2, "a-2".toList⟩, by decide⟩

/-- The slug is cut to its first letter, and the group of that name is not fetched. -/
theorem dashed_taken : freeName [dashedGroup, shortGroup] dashed = some "a-2".toList := by decide

theorem dashed_not_found : ¬ Found [dashedGroup, shortGroup] dashed := by
  rintro ⟨⟨name, heq, hfree⟩, -⟩
  rw [dashed_taken] at heq
  obtain rfl := Option.some.inj heq
  exact hfree.unused ⟨shortGroup, by simp, rfl⟩

end Waldur.Marketplace.ProjectGroups
