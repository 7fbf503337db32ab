import Mathlib
import Waldur.Lib.Dependencies
import Waldur.Lib.Documents
import Waldur.Lib.Runs
import Waldur.Marketplace.DerivedLimits

/-!
# Marketplace.DerivedSums — sums are calculated from final values, in any order of the options

`validate_derived_options` accepts options when no component is derived twice and `_sum_order` finds an order of the
sums.  That order puts each sum after the sums that it reads (`sumOrder_spec`); so the sums are the one solution of their
equations over the values that the formulas and the kept limits leave, and neither they nor anything else of
`compute_derived_limits` depends on the order of the options (`derived_sums`).
-/

namespace Waldur.Marketplace

open Dependencies Documents Runs

/-! ## What the options derive -/

section Targets

variable {F : Type} {options options' : Options F}

/-- The components that `validate_derived_options` checks of an option. -/
def targetsOf (option : OptionField F) : List String :=
  match option.type with
  | .componentFormula _ => formulaTargets option
  | .componentSum target _ => [target]
  | .other => []

/-- The sum of an option. -/
def sumOf (option : String × OptionField F) : Option (String × List String) :=
  match option.2.type with
  | .componentSum target components => some (target, components)
  | _ => none

theorem sumOf_eq_some {option : String × OptionField F} {target : String} {components : List String} :
    sumOf option = some (target, components) ↔ option.2.type = .componentSum target components := by
  unfold sumOf
  cases option.2.type with
  | componentSum t c => rw [Option.some.injEq, Prod.mk.injEq, OptionType.componentSum.injEq]
  | componentFormula | other => exact ⟨nofun, nofun⟩

theorem checkedTargets_eq {name : String} {option : OptionField F} {targets : List String}
    (h : checkedTargets name option = .ok targets) : targets = targetsOf option := by
  unfold checkedTargets at h
  unfold targetsOf
  cases htype : option.type with
  | componentFormula l => rw [htype] at h; exact (Except.ok.inj h).symm
  | other => rw [htype] at h; exact (Except.ok.inj h).symm
  | componentSum target components =>
    rw [htype] at h
    simp only at h
    split_ifs at h
    exact (Except.ok.inj h).symm

/-- One component of an option: its owner, unless it has one. -/
def own (name : String) (owners : List (String × String)) (c : String) : Except DerivedError (List (String × String)) :=
  match owners.lookup c with
  | some first => .error (.derivedTwice c first name)
  | none => .ok (owners ++ [(c, name)])

/-- One option of `validate_derived_options`. -/
def ownAll (owners : List (String × String)) (option : String × OptionField F) :
    Except DerivedError (List (String × String)) := do
  (← checkedTargets option.1 option.2).foldlM (own option.1) owners

/-- Each component gets one owner. -/
theorem owners_targets {name : String} : ∀ {targets : List String} {owners owners' : List (String × String)},
    targets.foldlM (own name) owners = .ok owners' → (owners.map Prod.fst).Nodup →
      owners'.map Prod.fst = owners.map Prod.fst ++ targets ∧ (owners'.map Prod.fst).Nodup
  | [], owners, owners', h, hnodup => by
    obtain rfl := Except.ok.inj h
    exact ⟨(List.append_nil _).symm, hnodup⟩
  | c :: targets, owners, owners', h, hnodup => by
    obtain ⟨next, hnext, hrest⟩ := bind_eq_ok.mp h
    unfold own at hnext
    split at hnext
    · cases hnext
    · next hlookup =>
      obtain rfl := Except.ok.inj hnext
      have hnew : c ∉ owners.map Prod.fst := by
        intro hmem
        obtain ⟨p, hp, rfl⟩ := List.mem_map.mp hmem
        exact absurd (List.lookup_eq_none_iff.mp hlookup p hp) (by simp)
      have hnodup' : ((owners ++ [(c, name)]).map Prod.fst).Nodup := by
        rw [List.map_append]
        exact List.nodup_append'.mpr ⟨hnodup, List.nodup_singleton _, List.disjoint_singleton.mpr hnew⟩
      obtain ⟨heq, hdone⟩ := owners_targets hrest hnodup'
      refine ⟨heq.trans ?_, hdone⟩
      rw [List.map_append, List.append_assoc]
      rfl

theorem owners_options : ∀ {options : Options F} {owners owners' : List (String × String)},
    options.foldlM ownAll owners = .ok owners' → (owners.map Prod.fst).Nodup →
      owners'.map Prod.fst = owners.map Prod.fst ++ options.flatMap (fun option => targetsOf option.2) ∧
        (owners'.map Prod.fst).Nodup
  | [], owners, owners', h, hnodup => by
    obtain rfl := Except.ok.inj h
    exact ⟨(List.append_nil _).symm, hnodup⟩
  | option :: options, owners, owners', h, hnodup => by
    obtain ⟨next, hnext, hrest⟩ := bind_eq_ok.mp h
    obtain ⟨targets, htargets, hnext⟩ := bind_eq_ok.mp hnext
    obtain rfl := checkedTargets_eq htargets
    obtain ⟨heq, hnodup'⟩ := owners_targets hnext hnodup
    obtain ⟨heq', hdone⟩ := owners_options hrest hnodup'
    refine ⟨heq'.trans ?_, hdone⟩
    rw [heq, List.append_assoc, List.flatMap_cons]

/-- **No component of accepted options is derived twice.** -/
theorem validate_nodup (h : validateDerivedOptions options = .ok ()) :
    (options.flatMap fun option => targetsOf option.2).Nodup := by
  obtain ⟨owners, howners, -⟩ := bind_eq_ok.mp h
  obtain ⟨heq, hnodup⟩ := owners_options howners List.nodup_nil
  rw [heq] at hnodup
  exact hnodup

theorem validate_order (h : validateDerivedOptions options = .ok ()) : ∃ ordered, sumOrder options = .ok ordered := by
  obtain ⟨-, -, h⟩ := bind_eq_ok.mp h
  obtain ⟨ordered, hordered, -⟩ := bind_eq_ok.mp h
  exact ⟨ordered, hordered⟩

theorem sums_sublist : ((options.filterMap sumOf).map Prod.fst).Sublist
    (options.flatMap fun option => targetsOf option.2) := by
  induction options with
  | nil => exact List.Sublist.refl _
  | cons option options ih =>
    rw [List.flatMap_cons]
    cases hsum : sumOf option with
    | none =>
      rw [List.filterMap_cons_none hsum]
      exact ih.trans (List.sublist_append_right _ _)
    | some sum =>
      have htype := sumOf_eq_some.mp hsum
      rw [List.filterMap_cons_some hsum, targetsOf, htype]
      exact ih.cons_cons sum.1

theorem derived_sublist : (options.flatMap fun option => derivedBy option.2).Sublist
    (options.flatMap fun option => targetsOf option.2) := by
  induction options with
  | nil => exact List.Sublist.refl _
  | cons option options ih =>
    rw [List.flatMap_cons, List.flatMap_cons]
    refine List.Sublist.append ?_ ih
    unfold derivedBy targetsOf
    cases option.2.type with
    | componentFormula | other => exact List.Sublist.refl _
    | componentSum target components =>
      dsimp only
      split_ifs
      · exact List.nil_sublist _
      · exact List.Sublist.refl _

/-- One option of `sums`. -/
def addSum (sums : List (String × List String)) (option : String × OptionField F) : List (String × List String) :=
  match option.2.type with
  | .componentSum target components =>
    if target ∈ sums.map Prod.fst then sums.map fun s => if s.1 = target then (target, components) else s
    else sums ++ [(target, components)]
  | _ => sums

theorem foldl_addSum : ∀ {options : Options F} {acc : List (String × List String)},
    ((acc ++ options.filterMap sumOf).map Prod.fst).Nodup → options.foldl addSum acc = acc ++ options.filterMap sumOf
  | [], acc, _ => (List.append_nil acc).symm
  | option :: options, acc, hnodup => by
    rw [List.foldl_cons]
    cases hsum : sumOf option with
    | none =>
      rw [List.filterMap_cons_none hsum] at hnodup ⊢
      have hsame : addSum acc option = acc := by
        unfold addSum
        cases htype : option.2.type with
        | componentSum t c => rw [sumOf_eq_some.mpr htype] at hsum; cases hsum
        | componentFormula | other => rfl
      rw [hsame, foldl_addSum hnodup]
    | some sum =>
      rw [List.filterMap_cons_some hsum] at hnodup ⊢
      have hnew : sum.1 ∉ acc.map Prod.fst := by
        rw [List.map_append] at hnodup
        exact fun hmem => List.disjoint_of_nodup_append hnodup hmem List.mem_cons_self
      have hadd : addSum acc option = acc ++ [sum] := by
        unfold addSum
        rw [sumOf_eq_some.mp hsum]
        exact if_neg hnew
      rw [hadd, foldl_addSum, List.append_assoc, List.singleton_append]
      rwa [List.append_assoc, List.singleton_append]

/-- The sums of options that derive no component twice. -/
theorem sums_eq (h : ((options.filterMap sumOf).map Prod.fst).Nodup) : sums options = options.filterMap sumOf :=
  foldl_addSum h

end Targets

/-! ## The order of the sums -/

section Order

variable {F : Type} {sums ordered ordered' : List (String × List String)} {target : String} {path : List String}

/-- What `visit` keeps of the order: it has sums, each once and after the sums that it reads. -/
structure InOrder (sums ordered : List (String × List String)) : Prop where
  nodup : (ordered.map Prod.fst).Nodup
  isSum : ∀ s ∈ ordered, sums.lookup s.1 = some s.2
  sorted : Sorted (sums.map Prod.fst) ordered

theorem inOrder_nil : InOrder sums [] := ⟨List.nodup_nil, fun _ h => absurd h List.not_mem_nil, sorted_nil⟩

/-- What a visit adds has not been on the path. -/
def Grows (path : List String) (ordered ordered' : List (String × List String)) : Prop :=
  (∀ k ∈ ordered.map Prod.fst, k ∈ ordered'.map Prod.fst) ∧
    ∀ k ∈ path, k ∈ ordered'.map Prod.fst → k ∈ ordered.map Prod.fst

theorem Grows.refl (path : List String) (ordered : List (String × List String)) : Grows path ordered ordered :=
  ⟨fun _ h => h, fun _ _ h => h⟩

theorem Grows.trans {ordered'' : List (String × List String)} (h : Grows path ordered ordered')
    (h' : Grows path ordered' ordered'') : Grows path ordered ordered'' :=
  ⟨fun k hk => h'.1 k (h.1 k hk), fun k hk hmem => h.2 k hk (h'.2 k hk hmem)⟩

/-- One sum after the sums that it reads. -/
theorem InOrder.concat {components : List String} (h : InOrder sums ordered) (hnew : target ∉ ordered.map Prod.fst)
    (hsum : sums.lookup target = some components)
    (hreads : ∀ c ∈ components, c ∈ sums.map Prod.fst → c ∈ ordered.map Prod.fst) :
    InOrder sums (ordered ++ [(target, components)]) where
  nodup := by
    rw [List.map_append]
    exact List.nodup_append'.mpr ⟨h.nodup, List.nodup_singleton _, List.disjoint_singleton.mpr hnew⟩
  isSum := by
    intro s hs
    rcases List.mem_append.mp hs with hs | hs
    · exact h.isSum s hs
    · obtain rfl := List.mem_singleton.mp hs
      exact hsum
  sorted := sorted_concat.mpr ⟨h.sorted, hreads⟩

/-- **What a visit does**: the order is kept, the target is in it afterwards, and nothing of the path has been added. -/
theorem visit_spec (h : visit sums target path ordered = .ok ordered') (hinv : InOrder sums ordered) :
    InOrder sums ordered' ∧ Grows path ordered ordered' ∧
      (target ∈ sums.map Prod.fst → target ∈ ordered'.map Prod.fst) := by
  fun_induction visit sums target path ordered generalizing ordered' with
  | case1 target path ordered hdone =>
    obtain rfl := Except.ok.inj h
    exact ⟨hinv, Grows.refl _ _, fun _ => hdone⟩
  | case2 => cases h
  | case3 target path ordered hdone hpath hsum =>
    obtain rfl := Except.ok.inj h
    refine ⟨hinv, Grows.refl _ _, fun hmem => ?_⟩
    obtain ⟨s, hs, rfl⟩ := List.mem_map.mp hmem
    exact absurd (List.lookup_eq_none_iff.mp hsum s hs) (by simp)
  | case4 target path ordered hdone hpath components hsum ih =>
    obtain ⟨read, hread, hlast⟩ := bind_eq_ok.mp h
    obtain rfl := Except.ok.inj hlast
    -- The sums that the target reads, with the target on the path.
    have hstep : ∀ c ∈ components, ∀ s s', InOrder sums s →
        (if c ∈ sums.map Prod.fst then visit sums c (path ++ [target]) s else .ok s) = .ok s' →
        InOrder sums s' ∧ Grows (path ++ [target]) s s' ∧ (c ∈ sums.map Prod.fst → c ∈ s'.map Prod.fst) := by
      intro c _ s s' hs hvisit
      split_ifs at hvisit with hc
      · exact ih s c hvisit hs
      · obtain rfl := Except.ok.inj hvisit
        exact ⟨hs, Grows.refl _ _, fun hmem => absurd hmem hc⟩
    have hkeep : ∀ (c : String) (s s' : List (String × List String)), Grows (path ++ [target]) s s' →
        (c ∈ sums.map Prod.fst → c ∈ s.map Prod.fst) → c ∈ sums.map Prod.fst → c ∈ s'.map Prod.fst :=
      fun c s s' hgrows hc hmem => hgrows.1 c (hc hmem)
    obtain ⟨hinv', hgrows, hreads⟩ := foldlM_spec (Grows.refl _) Grows.trans hkeep hstep hinv hread
    have hnew : target ∉ read.map Prod.fst := fun hmem =>
      hdone (hgrows.2 target (List.mem_append_right _ (List.mem_singleton_self _)) hmem)
    refine ⟨hinv'.concat hnew hsum hreads, ⟨fun k hk => ?_, fun k hk hmem => ?_⟩, fun _ => ?_⟩
    · rw [List.map_append]
      exact List.mem_append_left _ (hgrows.1 k hk)
    · rw [List.map_append, List.mem_append, List.map_singleton, List.mem_singleton] at hmem
      rcases hmem with hmem | rfl
      · exact hgrows.2 k (List.mem_append_left _ hk) hmem
      · exact absurd hk hpath
    · rw [List.map_append]
      exact List.mem_append_right _ (List.mem_singleton_self _)

/-- **A visit fails only on a cycle**: where the sums that are read are lower than those that read them, it does not. -/
theorem visit_isOk {height : String → ℕ}
    (hheight : ∀ t components, sums.lookup t = some components → ∀ c ∈ components, c ∈ sums.map Prod.fst →
      height c < height t)
    (hpath : ∀ p ∈ path, height target < height p) : ∃ ordered', visit sums target path ordered = .ok ordered' := by
  fun_induction visit sums target path ordered with
  | case1 | case3 => exact ⟨_, rfl⟩
  | case2 target path ordered hdone hmem => exact absurd (hpath target hmem) (lt_irrefl _)
  | case4 target path ordered hdone hnot components hsum ih =>
    have hstep : ∀ c ∈ components, ∀ s,
        (∃ s', (if c ∈ sums.map Prod.fst then visit sums c (path ++ [target]) s else .ok s) = .ok s') ↔ True := by
      refine fun c hc s => iff_true_intro ?_
      split_ifs with hmem
      · refine ih s c fun p hp => ?_
        have hlt : height c < height target := hheight target components hsum c hc hmem
        rcases List.mem_append.mp hp with hp | hp
        · exact hlt.trans (hpath p hp)
        · rwa [List.mem_singleton.mp hp]
      · exact ⟨s, rfl⟩
    obtain ⟨read, hread⟩ := (foldlM_isOk hstep).mpr fun _ _ => trivial
    exact ⟨_, bind_eq_ok.mpr ⟨read, hread, rfl⟩⟩

/-- A sum among sums with distinct targets. -/
theorem lookup_eq_some_iff_mem (hnodup : (sums.map Prod.fst).Nodup) {components : List String} :
    sums.lookup target = some components ↔ (target, components) ∈ sums := by
  rw [List.lookup_eq_some_iff]
  constructor
  · rintro ⟨l, r, rfl, -⟩
    exact List.mem_append_right _ List.mem_cons_self
  · intro hmem
    obtain ⟨l, r, rfl⟩ := List.append_of_mem hmem
    refine ⟨l, r, rfl, fun p hp => ?_⟩
    rw [List.map_append] at hnodup
    have hne : p.1 ≠ target := fun heq =>
      List.disjoint_of_nodup_append hnodup (List.mem_map_of_mem hp) (heq ▸ List.mem_cons_self)
    exact bne_iff_ne.mpr hne.symm

variable {options options' : Options F}

/-- **Each sum once, after every sum that it reads.** -/
theorem sumOrder_spec (hnodup : ((options.filterMap sumOf).map Prod.fst).Nodup) (h : sumOrder options = .ok ordered) :
    ordered.Perm (options.filterMap sumOf) ∧ (ordered.map Prod.fst).Nodup ∧ Sorted (ordered.map Prod.fst) ordered := by
  rw [sumOrder, sums_eq hnodup] at h
  have hstep : ∀ target ∈ (options.filterMap sumOf).map Prod.fst, ∀ s s', InOrder (options.filterMap sumOf) s →
      visit (options.filterMap sumOf) target [] s = .ok s' →
      InOrder (options.filterMap sumOf) s' ∧ Grows [] s s' ∧ target ∈ s'.map Prod.fst := by
    intro target htarget s s' hs hvisit
    obtain ⟨hinv, hgrows, hdone⟩ := visit_spec hvisit hs
    exact ⟨hinv, hgrows, hdone htarget⟩
  have hkeep : ∀ (target : String) (s s' : List (String × List String)), Grows [] s s' →
      target ∈ s.map Prod.fst → target ∈ s'.map Prod.fst := fun target _ _ hgrows => hgrows.1 target
  obtain ⟨hinv, -, hall⟩ := foldlM_spec (Grows.refl []) Grows.trans hkeep hstep inOrder_nil h
  have hperm : ordered.Perm (options.filterMap sumOf) := by
    refine (List.perm_ext_iff_of_nodup hinv.nodup.of_map hnodup.of_map).mpr fun s => ?_
    constructor
    · exact fun hs => (lookup_eq_some_iff_mem hnodup).mp (hinv.isSum s hs)
    · intro hs
      obtain ⟨s', hs', heq⟩ := List.mem_map.mp (hall s.1 (List.mem_map_of_mem hs))
      have hmem : s' ∈ options.filterMap sumOf := (lookup_eq_some_iff_mem hnodup).mp (hinv.isSum s' hs')
      exact List.inj_on_of_nodup_map hnodup hmem hs heq ▸ hs'
  refine ⟨hperm, hinv.nodup, fun l node r hl c hc hmem => ?_⟩
  exact hinv.sorted l node r hl c hc ((hperm.map Prod.fst).mem_iff.mp hmem)

/-- `_sum_order` finds an order where the sums that are read are lower than those that read them. -/
theorem sumOrder_isOk {height : String → ℕ} (hnodup : ((options.filterMap sumOf).map Prod.fst).Nodup)
    (hheight : ∀ t components, (t, components) ∈ options.filterMap sumOf → ∀ c ∈ components,
      c ∈ (options.filterMap sumOf).map Prod.fst → height c < height t) :
    ∃ ordered, sumOrder options = .ok ordered := by
  rw [sumOrder, sums_eq hnodup]
  have hstep : ∀ target ∈ (options.filterMap sumOf).map Prod.fst, ∀ s,
      (∃ s', visit (options.filterMap sumOf) target [] s = .ok s') ↔ True := by
    have hlookup : ∀ t components, (options.filterMap sumOf).lookup t = some components → ∀ c ∈ components,
        c ∈ (options.filterMap sumOf).map Prod.fst → height c < height t :=
      fun t components hsum => hheight t components ((lookup_eq_some_iff_mem hnodup).mp hsum)
    exact fun _ _ _ => iff_true_intro (visit_isOk hlookup fun _ hp => absurd hp List.not_mem_nil)
  exact (foldlM_isOk hstep).mpr fun _ _ => trivial

/-- **The options may be in any order**: where `_sum_order` finds an order of the sums, it finds one for every
permutation. -/
theorem sumOrder_isOk_of_perm (hnodup : ((options.filterMap sumOf).map Prod.fst).Nodup) (h : sumOrder options = .ok ordered)
    (hperm : options.Perm options') : ∃ ordered', sumOrder options' = .ok ordered' := by
  obtain ⟨hordered, hkeys, hsorted⟩ := sumOrder_spec hnodup h
  have hsums : (options.filterMap sumOf).Perm (options'.filterMap sumOf) := hperm.filterMap sumOf
  have hheight : ∀ t components, (t, components) ∈ options'.filterMap sumOf → ∀ c ∈ components,
      c ∈ (options'.filterMap sumOf).map Prod.fst → rank ordered c < rank ordered t := by
    intro t components hsum c hc hmem
    have hnode : (t, components) ∈ ordered := hordered.mem_iff.mpr (hsums.mem_iff.mpr hsum)
    exact hsorted.rank_lt hkeys hnode hc (((hordered.trans hsums).map Prod.fst).mem_iff.mpr hmem)
  exact sumOrder_isOk ((hsums.map Prod.fst).nodup_iff.mp hnodup) hheight

end Order

/-! ## Limits under permuted options -/

section Steps

variable {κ ν ε : Type} [LinearOrder κ] {d : Document κ ν} {k k' : κ}

theorem insert_comm (h : k ≠ k') (v v' : ν) : (d.insert k v).insert k' v' = (d.insert k' v').insert k v := by
  refine Document.ext_get? fun j => ?_
  by_cases hj : j = k
  · subst hj
    rw [Document.get?_insert_ne h, Document.get?_insert_self, Document.get?_insert_self]
  · by_cases hj' : j = k'
    · subst hj'
      rw [Document.get?_insert_self, Document.get?_insert_ne hj, Document.get?_insert_self]
    · rw [Document.get?_insert_ne hj', Document.get?_insert_ne hj, Document.get?_insert_ne hj, Document.get?_insert_ne hj']

/-- A step that reads one key, and writes it or nothing. -/
def stepAt (k : κ) (value : Option ν → Except ε (Option ν)) (d : Document κ ν) : Except ε (Document κ ν) :=
  (value (d.get? k)).map fun o => o.elim d (d.insert k)

theorem get?_elim_insert (h : k' ≠ k) (o : Option ν) : (o.elim d (d.insert k)).get? k' = d.get? k' := by
  cases o with
  | none => rfl
  | some v => exact Document.get?_insert_ne h

/-- Steps at two keys commute. -/
theorem stepAt_comm (h : k ≠ k') (value value' : Option ν → Except ε (Option ν)) :
    (stepAt k value d >>= stepAt k' value').toOption = (stepAt k' value' d >>= stepAt k value).toOption := by
  rw [toOption_bind, toOption_bind]
  unfold stepAt
  cases hv : value (d.get? k) with
  | error e =>
    cases hv' : value' (d.get? k') with
    | error e' => rfl
    | ok o' =>
      change none = ((value ((o'.elim d (d.insert k')).get? k)).map _).toOption
      rw [get?_elim_insert h, hv]
      rfl
  | ok o =>
    cases hv' : value' (d.get? k') with
    | error e' =>
      change ((value' ((o.elim d (d.insert k)).get? k')).map _).toOption = none
      rw [get?_elim_insert h.symm, hv']
      rfl
    | ok o' =>
      change ((value' ((o.elim d (d.insert k)).get? k')).map _).toOption =
        ((value ((o'.elim d (d.insert k')).get? k)).map _).toOption
      rw [get?_elim_insert h, get?_elim_insert h.symm, hv, hv']
      refine congrArg some ?_
      cases o with
      | none => rfl
      | some v =>
        cases o' with
        | none => rfl
        | some v' => exact insert_comm h v v'

/-- Several assignments. -/
def insertAll (d : Document κ ν) (l : List (κ × ν)) : Document κ ν := l.foldl (fun d a => d.insert a.1 a.2) d

theorem insertAll_insert {l : List (κ × ν)} (h : k ∉ l.map Prod.fst) (v : ν) :
    insertAll (d.insert k v) l = (insertAll d l).insert k v := by
  induction l generalizing d with
  | nil => rfl
  | cons a l ih =>
    rw [List.map_cons, List.mem_cons, not_or] at h
    unfold insertAll at ih ⊢
    rw [List.foldl_cons, List.foldl_cons, insert_comm h.1, ih h.2]

theorem insertAll_comm {l l' : List (κ × ν)} (h : (l.map Prod.fst).Disjoint (l'.map Prod.fst)) :
    insertAll (insertAll d l) l' = insertAll (insertAll d l') l := by
  induction l' generalizing d with
  | nil => rfl
  | cons a l' ih =>
    rw [List.map_cons, List.disjoint_cons_right] at h
    change insertAll ((insertAll d l).insert a.1 a.2) l' = insertAll (insertAll (d.insert a.1 a.2) l') l
    rw [← ih h.2, insertAll_insert h.1]

end Steps

section Formulas

variable {F : Type} {floats : Floats F} {options options' : Options F} {attributes : Document String (Value F)}
  {components : Document String Component} {exact : Exact}

/-- The amounts that an option with formulas sets. -/
def amounts (components : Document String Component) (name : String) (value : ℚ) :
    List FormulaTarget → Except DerivedError (List (String × ℚ))
  | [] => .ok []
  | target :: targets =>
    match parseFormula target.formula >>= evaluateFormula value with
    | .error error => .error (.cannotCalculate name target.componentType error)
    | .ok amount =>
      if amount < 0 then .error (.negative name target.componentType)
      else (amounts components name value targets).map
        ((target.componentType, roundUp amount (components.get? target.componentType)) :: ·)

/-- What an option sets: nothing without a value. -/
def optionAmounts (floats : Floats F) (attributes : Document String (Value F)) (components : Document String Component)
    (option : String × OptionField F) : Except DerivedError (List (String × ℚ)) :=
  match option.2.type with
  | .componentFormula targets =>
    match formulaInput floats option.1 option.2 attributes with
    | .error e => .error e
    | .ok none => .ok []
    | .ok (some value) => amounts components option.1 value targets
  | _ => .ok []

theorem applyFormula_eq {name : String} {value : ℚ} {targets : List FormulaTarget} :
    applyFormula components name targets value exact = (amounts components name value targets).map (insertAll exact) := by
  unfold applyFormula
  induction targets generalizing exact with
  | nil => rfl
  | cons target targets ih =>
    rw [List.foldlM_cons, amounts]
    cases parseFormula target.formula >>= evaluateFormula value with
    | error e => rfl
    | ok amount =>
      dsimp only
      split_ifs with hneg
      · rfl
      · refine (@ih (exact.insert _ _)).trans ?_
        cases amounts components name value targets <;> rfl

theorem applyFormulas_eq : applyFormulas floats options attributes components exact =
    options.foldlM (fun exact option => (optionAmounts floats attributes components option).map (insertAll exact)) exact := by
  unfold applyFormulas
  refine congrArg (fun f => options.foldlM f exact) ?_
  funext exact option
  unfold optionAmounts
  cases option.2.type with
  | componentSum | other => rfl
  | componentFormula targets =>
    dsimp only
    cases formulaInput floats option.1 option.2 attributes with
    | error e => rfl
    | ok o =>
      cases o with
      | none => rfl
      | some value => exact applyFormula_eq

theorem amounts_keys {name : String} {value : ℚ} : ∀ {targets : List FormulaTarget} {l : List (String × ℚ)},
    amounts components name value targets = .ok l → l.map Prod.fst = targets.map (·.componentType)
  | [], l, h => by rw [← Except.ok.inj h]; rfl
  | target :: targets, l, h => by
    rw [amounts] at h
    split at h
    · cases h
    · split_ifs at h
      obtain ⟨rest, hrest, rfl⟩ := map_eq_ok.mp h
      rw [List.map_cons, List.map_cons, amounts_keys hrest]

theorem optionAmounts_keys {option : String × OptionField F} {l : List (String × ℚ)}
    (h : optionAmounts floats attributes components option = .ok l) : l.map Prod.fst ⊆ targetsOf option.2 := by
  unfold optionAmounts at h
  unfold targetsOf formulaTargets
  cases htype : option.2.type with
  | componentSum | other =>
    rw [htype] at h
    rw [← Except.ok.inj h]
    exact List.nil_subset _
  | componentFormula targets =>
    rw [htype] at h
    dsimp only at h ⊢
    split at h
    · cases h
    · rw [← Except.ok.inj h]
      exact List.nil_subset _
    · rw [amounts_keys h]
      exact fun _ hk => hk

/-- What two options derive is not the same. -/
theorem targets_disjoint (hnodup : (options.flatMap fun option => targetsOf option.2).Nodup)
    {a b : String × OptionField F} (ha : a ∈ options) (hb : b ∈ options) (hne : a ≠ b) :
    (targetsOf a.2).Disjoint (targetsOf b.2) := by
  have hsymm : Std.Symm (Function.onFun List.Disjoint fun option : String × OptionField F => targetsOf option.2) :=
    ⟨fun _ _ h => h.symm⟩
  exact (List.nodup_flatMap.mp hnodup).2.forall ha hb hne

/-- The formulas set the same values in any order of the options. -/
theorem applyFormulas_perm (hnodup : (options.flatMap fun option => targetsOf option.2).Nodup)
    (hperm : options.Perm options') : (applyFormulas floats options attributes components exact).toOption =
      (applyFormulas floats options' attributes components exact).toOption := by
  rw [applyFormulas_eq, applyFormulas_eq]
  refine foldlM_perm hperm (fun a ha b hb d => ?_) exact
  by_cases hab : a = b
  · rw [hab]
  · rw [toOption_bind, toOption_bind]
    cases hamounts : optionAmounts floats attributes components a with
    | error e =>
      cases optionAmounts floats attributes components b <;> rfl
    | ok l =>
      cases hamounts' : optionAmounts floats attributes components b with
      | error e => rfl
      | ok l' =>
        refine congrArg some (insertAll_comm fun k hk hk' => ?_)
        exact targets_disjoint hnodup ha hb hab (optionAmounts_keys hamounts hk) (optionAmounts_keys hamounts' hk')

end Formulas

section Derived

variable {F : Type} {floats : Floats F} {options options' : Options F} {fallback result r : Document String (Value F)}
  {components : Document String Component} {derived derived' : List (String × String)} {exact : Exact} {k : String}

/-- One component that is new. -/
theorem foldl_setDefault : ∀ {l acc : List (String × String)}, ((acc ++ l).map Prod.fst).Nodup →
    l.foldl (fun result d => setDefault result d.1 d.2) acc = acc ++ l
  | [], acc, _ => (List.append_nil acc).symm
  | d :: l, acc, hnodup => by
    have hnew : d.1 ∉ acc.map Prod.fst := by
      rw [List.map_append] at hnodup
      exact fun hmem => List.disjoint_of_nodup_append hnodup hmem List.mem_cons_self
    rw [List.foldl_cons, setDefault, if_neg hnew, foldl_setDefault, List.append_assoc, List.singleton_append]
    rwa [List.append_assoc, List.singleton_append]

/-- The components that the options derive, each with its option. -/
def derivedPairs (options : Options F) : List (String × String) :=
  options.flatMap fun option => (derivedBy option.2).map fun c => (c, option.1)

theorem derivedPairs_nodup (hnodup : (options.flatMap fun option => targetsOf option.2).Nodup) :
    ((derivedPairs options).map Prod.fst).Nodup := by
  rw [derivedPairs, List.map_flatMap]
  simp only [List.map_map, Function.comp_def, List.map_id']
  exact derived_sublist.nodup hnodup

/-- The derived components of options that derive no component twice. -/
theorem derivedComponents_eq (hnodup : (options.flatMap fun option => targetsOf option.2).Nodup) :
    derivedComponents options = derivedPairs options := by
  refine Eq.trans ?_ (foldl_setDefault ((List.nil_append (derivedPairs options)).symm ▸ derivedPairs_nodup hnodup))
  rw [derivedComponents, derivedPairs, List.foldl_flatMap]
  simp only [List.foldl_map]

theorem derivedComponents_nodup (hnodup : (options.flatMap fun option => targetsOf option.2).Nodup) :
    ((derivedComponents options).map Prod.fst).Nodup :=
  (derivedComponents_eq hnodup).symm ▸ derivedPairs_nodup hnodup

theorem derivedComponents_perm (hnodup : (options.flatMap fun option => targetsOf option.2).Nodup)
    (hperm : options.Perm options') : (derivedComponents options).Perm (derivedComponents options') := by
  have hnodup' := (hperm.flatMap_right fun option => targetsOf option.2).nodup_iff.mp hnodup
  rw [derivedComponents_eq hnodup, derivedComponents_eq hnodup']
  exact hperm.flatMap_right _

/-- A loop with one step for each derived component does not depend on their order. -/
theorem foldlM_stepAt_perm {ν : Type} (hnodup : (derived.map Prod.fst).Nodup) (hperm : derived.Perm derived')
    (value : String → Option ν → Except DerivedError (Option ν)) (d : Document String ν) :
    (derived.foldlM (fun d c => stepAt c.1 (value c.1) d) d).toOption =
      (derived'.foldlM (fun d c => stepAt c.1 (value c.1) d) d).toOption := by
  refine foldlM_perm hperm (fun a ha b hb d => ?_) d
  by_cases hab : a = b
  · rw [hab]
  · exact stepAt_comm (fun heq => hab (List.inj_on_of_nodup_map hnodup ha hb heq)) _ _

/-- What is kept for a component that has no value yet. -/
def keptAt (floats : Floats F) (fallback : Document String (Value F)) (c : String) (old : Option ℚ) :
    Except DerivedError (Option ℚ) :=
  match old, fallback.get? c with
  | none, some value =>
    match fractionOf floats value with
    | some value => .ok (some value)
    | none => .error .notAFraction
  | _, _ => .ok none

/-- What is written for a component. -/
def writtenAt (floats : Floats F) (exact : Exact) (c : String) (_old : Option (Value F)) :
    Except DerivedError (Option (Value F)) :=
  match exact.get? c with
  | some value => (narrow floats value).map some
  | none => .ok none

theorem applyFallback_eq : applyFallback floats derived fallback exact =
    derived.foldlM (fun exact c => stepAt c.1 (keptAt floats fallback c.1) exact) exact := by
  unfold applyFallback
  refine congrArg (fun f => derived.foldlM f exact) ?_
  funext exact c
  unfold stepAt keptAt
  cases exact.get? c.1 with
  | some old => rfl
  | none =>
    cases fallback.get? c.1 with
    | none => rfl
    | some value =>
      dsimp only
      cases fractionOf floats value <;> rfl

theorem writeDerived_eq : writeDerived floats derived exact result =
    derived.foldlM (fun result c => stepAt c.1 (writtenAt floats exact c.1) result) result := by
  unfold writeDerived
  refine congrArg (fun f => derived.foldlM f result) ?_
  funext result c
  unfold stepAt writtenAt
  cases exact.get? c.1 with
  | none => rfl
  | some value =>
    dsimp only
    cases narrow floats value <;> rfl

theorem applyFallback_perm (hnodup : (derived.map Prod.fst).Nodup) (hperm : derived.Perm derived') :
    (applyFallback floats derived fallback exact).toOption = (applyFallback floats derived' fallback exact).toOption := by
  rw [applyFallback_eq, applyFallback_eq]
  exact foldlM_stepAt_perm hnodup hperm (keptAt floats fallback) exact

theorem writeDerived_perm (hnodup : (derived.map Prod.fst).Nodup) (hperm : derived.Perm derived') :
    (writeDerived floats derived exact result).toOption = (writeDerived floats derived' exact result).toOption := by
  rw [writeDerived_eq, writeDerived_eq]
  exact foldlM_stepAt_perm hnodup hperm (writtenAt floats exact) result

/-- A derived component that has a value is written. -/
theorem writeDerived_get?_derived (h : writeDerived floats derived exact result = .ok r)
    (hnodup : (derived.map Prod.fst).Nodup) (hk : k ∈ derived.map Prod.fst) {value : ℚ}
    (hvalue : exact.get? k = some value) :
    ∃ v, narrow floats value = .ok v ∧ r.get? k = some v := by
  unfold writeDerived at h
  induction derived generalizing result with
  | nil => exact absurd hk List.not_mem_nil
  | cons d derived ih =>
    rw [List.map_cons, List.nodup_cons] at hnodup
    obtain ⟨next, hnext, hrest⟩ := bind_eq_ok.mp h
    rcases List.mem_cons.mp hk with rfl | hk
    · simp only [hvalue] at hnext
      obtain ⟨v, hv, rfl⟩ := map_eq_ok.mp hnext
      exact ⟨v, hv, (writeDerived_get? hrest hnodup.1).trans Document.get?_insert_self⟩
    · exact ih hrest hnodup.2 hk

theorem withoutDerived_perm (hperm : derived.Perm derived') :
    withoutDerived derived result = withoutDerived derived' result := by
  unfold withoutDerived
  refine congrArg _ ?_
  funext e
  exact decide_eq_decide.mpr (not_congr (hperm.map Prod.fst).mem_iff)

end Derived

/-! ## Sums of final values -/

section Sums

variable {F : Type} {floats : Floats F} {options options' : Options F}
  {attributes fallback limits result : Document String (Value F)}
  {components : Document String Component} {ordered ordered' : List (String × List String)} {exact : Exact}

/-- The value of a sum: that of its present sources, if it has any. -/
def sumRule (components : Document String Component) (target : String) (old : Option ℚ)
    (sources : List (Option ℚ)) : Option ℚ :=
  let present := sources.filterMap id
  if present = [] then old else some (roundUp present.sum (components.get? target))

/-- The sums are evaluated in their order. -/
theorem applySums_get? : (applySums ordered components exact).get? = evaluate (sumRule components) exact.get? ordered := by
  unfold applySums evaluate
  induction ordered generalizing exact with
  | nil => rfl
  | cons sum ordered ih =>
    rw [List.foldl_cons, List.foldl_cons, ih]
    refine congrArg (fun e => ordered.foldl _ e) ?_
    have hpresent : (sum.2.map exact.get?).filterMap id = sum.2.filterMap exact.get? := List.filterMap_map
    unfold sumRule
    rw [hpresent]
    dsimp only
    funext k
    by_cases hk : k = sum.1
    · subst hk
      rw [Function.update_self]
      split_ifs
      · rfl
      · exact Document.get?_insert_self
    · rw [Function.update_of_ne hk]
      split_ifs
      · rfl
      · exact Document.get?_insert_ne hk

theorem applySums_perm (hperm : ordered.Perm ordered') (hnodup : (ordered.map Prod.fst).Nodup)
    (h : Sorted (ordered.map Prod.fst) ordered) (h' : Sorted (ordered'.map Prod.fst) ordered') :
    applySums ordered components exact = applySums ordered' components exact := by
  refine Document.ext_get? fun k => ?_
  rw [applySums_get?, applySums_get?, evaluate_perm hperm hnodup h h']

/-- **A sum is the rounded sum of the final values of its present sources.** -/
theorem applySums_eq {target : String} {sources : List String} (hnodup : (ordered.map Prod.fst).Nodup)
    (h : Sorted (ordered.map Prod.fst) ordered) (hmem : (target, sources) ∈ ordered)
    (hpresent : sources.filterMap (applySums ordered components exact).get? ≠ []) :
    (applySums ordered components exact).get? target =
      some (roundUp (sources.filterMap (applySums ordered components exact).get?).sum (components.get? target)) := by
  have hsolves : Solves (sumRule components) exact.get? ordered (evaluate (sumRule components) exact.get? ordered) :=
    evaluate_solves h (fun _ hnode => List.mem_map_of_mem hnode) hnodup
  have hvalue := hsolves.2 _ hmem
  rw [← applySums_get?] at hvalue
  rw [hvalue, sumRule, List.filterMap_map, Function.id_comp]
  exact if_neg hpresent

/-- The exact values that the derived limits are written from. -/
def finalExact (floats : Floats F) (options : Options F) (attributes : Document String (Value F))
    (components : Document String Component) (fallback limits : Document String (Value F)) : Except DerivedError Exact := do
  let exact ← exactLimits floats (withoutDerived (derivedComponents options) limits)
  let exact ← applyFormulas floats options attributes components exact
  let exact ← applyFallback floats (derivedComponents options) fallback exact
  return applySums (← sumOrder options) components exact

theorem computeDerivedLimits_eq (hderived : derivedComponents options ≠ []) :
    computeDerivedLimits floats options attributes components fallback limits =
      match (derivedComponents options).find? fun d => decide (d.1 ∉ components.keys) with
      | some d => .error (.notALimitComponent d.2 d.1)
      | none =>
        finalExact floats options attributes components fallback limits >>= fun exact =>
          writeDerived floats (derivedComponents options) exact (withoutDerived (derivedComponents options) limits) := by
  rw [computeDerivedLimits, if_neg hderived]
  cases (derivedComponents options).find? fun d => decide (d.1 ∉ components.keys) with
  | some d => rfl
  | none =>
    unfold finalExact
    simp only [bind_assoc, pure_bind]

theorem finalExact_perm (hnodup : (options.flatMap fun option => targetsOf option.2).Nodup)
    (hordered : sumOrder options = .ok ordered) (hperm : options.Perm options') :
    (finalExact floats options attributes components fallback limits).toOption =
      (finalExact floats options' attributes components fallback limits).toOption := by
  have hsums : ((options.filterMap sumOf).map Prod.fst).Nodup := sums_sublist.nodup hnodup
  obtain ⟨ordered', hordered'⟩ := sumOrder_isOk_of_perm hsums hordered hperm
  obtain ⟨hmem, hkeys, hsorted⟩ := sumOrder_spec hsums hordered
  have hsums' : (options.filterMap sumOf).Perm (options'.filterMap sumOf) := hperm.filterMap sumOf
  obtain ⟨hmem', -, hsorted'⟩ := sumOrder_spec ((hsums'.map Prod.fst).nodup_iff.mp hsums) hordered'
  have hderived := derivedComponents_perm hnodup hperm
  unfold finalExact
  rw [withoutDerived_perm hderived, hordered, hordered']
  rw [toOption_bind, toOption_bind]
  refine Option.bind_congr fun exact _ => ?_
  rw [toOption_bind, toOption_bind, applyFormulas_perm hnodup hperm]
  refine Option.bind_congr fun exact _ => ?_
  rw [toOption_bind, toOption_bind, applyFallback_perm (derivedComponents_nodup hnodup) hderived]
  refine Option.bind_congr fun exact _ => ?_
  exact congrArg some (applySums_perm ((hmem.trans hsums').trans hmem'.symm) hkeys hsorted hsorted')

theorem computeDerivedLimits_perm (hnodup : (options.flatMap fun option => targetsOf option.2).Nodup)
    (hordered : sumOrder options = .ok ordered) (hperm : options.Perm options') :
    (computeDerivedLimits floats options attributes components fallback limits).toOption =
      (computeDerivedLimits floats options' attributes components fallback limits).toOption := by
  have hderived := derivedComponents_perm hnodup hperm
  by_cases hnil : derivedComponents options = []
  · have hnil' : derivedComponents options' = [] := (hnil ▸ hderived).symm.eq_nil
    rw [computeDerivedLimits, computeDerivedLimits, if_pos hnil, if_pos hnil']
  · have hnil' : derivedComponents options' ≠ [] := fun h => hnil (h ▸ hderived).eq_nil
    rw [computeDerivedLimits_eq hnil, computeDerivedLimits_eq hnil']
    cases hfind : (derivedComponents options).find? fun d => decide (d.1 ∉ components.keys) with
    | some d =>
      cases hfind' : (derivedComponents options').find? fun d => decide (d.1 ∉ components.keys) with
      | some d' => rfl
      | none =>
        have hd := List.find?_eq_none.mp hfind' d (hderived.mem_iff.mp (List.mem_of_find?_eq_some hfind))
        exact absurd (List.find?_some hfind) hd
    | none =>
      cases hfind' : (derivedComponents options').find? fun d => decide (d.1 ∉ components.keys) with
      | some d' =>
        have hd := List.find?_eq_none.mp hfind d' (hderived.mem_iff.mpr (List.mem_of_find?_eq_some hfind'))
        exact absurd (List.find?_some hfind') hd
      | none =>
        dsimp only
        rw [toOption_bind, toOption_bind, finalExact_perm hnodup hordered hperm, withoutDerived_perm hderived]
        refine Option.bind_congr fun exact _ => ?_
        exact writeDerived_perm (derivedComponents_nodup hnodup) hderived

/-- A limit that a sum derives is the rounded sum of the final values of its present sources. -/
theorem computeDerivedLimits_sum (hnodup : (options.flatMap fun option => targetsOf option.2).Nodup)
    (hresult : computeDerivedLimits floats options attributes components fallback limits = .ok result)
    {option : String × OptionField F} {target : String} {sources : List String} (hoption : option ∈ options)
    (htype : option.2.type = .componentSum target sources) (htarget : target ≠ "") :
    ∃ exact, finalExact floats options attributes components fallback limits = .ok exact ∧
      (sources.filterMap exact.get? ≠ [] →
        ∃ value, narrow floats (roundUp (sources.filterMap exact.get?).sum (components.get? target)) = .ok value ∧
          result.get? target = some value) := by
  have hmem : (target, option.1) ∈ derivedComponents options := by
    rw [derivedComponents_eq hnodup]
    refine List.mem_flatMap.mpr ⟨option, hoption, List.mem_map.mpr ⟨target, ?_, rfl⟩⟩
    rw [derivedBy, htype]
    simp only [if_neg htarget, List.mem_singleton]
  rw [computeDerivedLimits_eq (List.ne_nil_of_mem hmem)] at hresult
  cases hfind : (derivedComponents options).find? fun d => decide (d.1 ∉ components.keys) with
  | some d => rw [hfind] at hresult; cases hresult
  | none =>
    rw [hfind] at hresult
    obtain ⟨exact, hexact, hwrite⟩ := bind_eq_ok.mp hresult
    refine ⟨exact, hexact, fun hpresent => ?_⟩
    obtain ⟨exact₁, -, hrest⟩ := bind_eq_ok.mp hexact
    obtain ⟨exact₂, -, hrest⟩ := bind_eq_ok.mp hrest
    obtain ⟨exact₃, -, hrest⟩ := bind_eq_ok.mp hrest
    obtain ⟨ordered, hordered, hrest⟩ := bind_eq_ok.mp hrest
    obtain rfl := Except.ok.inj hrest
    obtain ⟨hsums, hkeys, hsorted⟩ := sumOrder_spec (sums_sublist.nodup hnodup) hordered
    have hsum : (target, sources) ∈ ordered :=
      hsums.mem_iff.mpr (List.mem_filterMap.mpr ⟨option, hoption, sumOf_eq_some.mpr htype⟩)
    exact writeDerived_get?_derived hwrite (derivedComponents_nodup hnodup) (List.mem_map_of_mem hmem)
      (applySums_eq hkeys hsorted hsum hpresent)

/-- A sum over another one and over a component with a formula, in front of what it reads. -/
def sumOfSums : Options Empty :=
  [("everything", { type := .componentSum "all" ["total", "ram"] }),
    ("cards", { type := .componentSum "total" ["cpu", "gpu"] }),
    ("cores", { type := .componentFormula [{ componentType := "cpu", formula := "input * 2" }] })]

theorem sumOfSums_valid : validateDerivedOptions sumOfSums = .ok () := by
  have hread : ∀ s ∈ sumOfSums.filterMap sumOf, ∀ c ∈ s.2, c ∈ (sumOfSums.filterMap sumOf).map Prod.fst →
      (if c = "all" then 1 else 0) < if s.1 = "all" then 1 else 0 := by decide
  have hnodup : ((sumOfSums.filterMap sumOf).map Prod.fst).Nodup := by decide
  obtain ⟨ordered, hordered⟩ := sumOrder_isOk hnodup fun t components hsum => hread (t, components) hsum
  rw [validateDerivedOptions, hordered]
  rfl

end Sums

end Waldur.Marketplace
