import Mathlib
import Waldur.Lib.Runs
import Waldur.Lib.TableClaims
import Waldur.Marketplace.Models

/-!
# Marketplace.UniqueOptions — an option whose values are unique among the resources of an offering

A value is taken by a resource that is not terminated, and reserved by its update orders until they are done.  Every
request that writes a value looks for it under the lock of the offering; but a resource or an order that comes back has
lost its claim meanwhile, and most ways back do not look.  `Guarded` is exactly what is left (`unique_iff`).
-/

namespace Waldur.Marketplace.UniqueOptions

open Relational Runs

/-! ## The code -/

/-- An update order of a resource, and the value that its new options give to the option, if they name it. -/
structure Change (ν : Type) where
  state : OrderState
  value : Option (Option ν)

/-- A resource of the offering: whether it is not terminated, the value that it holds, and its update orders. -/
structure Resource (ν : Type) where
  id : ℕ
  live : Bool := true
  held : Option ν
  changes : List (Change ν) := []

abbrev Resources (ν : Type) := Table ℕ (Resource ν) (fun r => r.id)

/-- `PENDING_UPDATE_ORDER_STATES`. -/
def pendingUpdateOrderStates : List OrderState :=
  [.pendingConsumer, .pendingProvider, .pendingProject, .pendingStartDate, .executing]

section Code

variable {ν : Type} [DecidableEq ν]

/-- The order is among the `update_orders` that reserve the value. -/
def Change.reserves (c : Change ν) (v : ν) : Bool :=
  decide (c.state ∈ pendingUpdateOrderStates) && decide (c.value = some (some v))

/-- A resource counts until it is terminated, with what it holds and what its orders reserve. -/
def Resource.uses (r : Resource ν) (v : ν) : Bool :=
  r.live && (decide (r.held = some v) || r.changes.any fun c => c.reserves v)

variable (resources : Resources ν)

/-- Another resource of the offering holds the value. -/
def taken (excluded : ℕ) (v : ν) : Bool := resources.rows.any fun r => decide (r.id ≠ excluded) && r.uses v

/-- `validate_unique_options`, of one option and the resource that is left out of account; a value that is not set is
not looked for. -/
def validateUniqueOptions (excluded : ℕ) (value : Option ν) : Bool := value.all fun v => !taken resources excluded v

/-- `_validate_unique_options` of an update: only a value that changes is checked. -/
def validateChanged (r : Resource ν) (value : Option (Option ν)) : Bool :=
  value.all fun value => decide (value = r.held) || validateUniqueOptions resources r.id value

end Code

/-- What happens to the resources of an offering.  An update order moves from state to state, an erred one also back to
executing; a resource comes back by a restore order, or because a failed creation is retried or a late report of its
backend sets it to erred. -/
inductive ResourceOp (ν : Type)
  | create (value : Option ν)
  | editCreateOrder (id : ℕ) (value : Option ν)
  | update (id : ℕ) (value : Option (Option ν))
  | order (id : ℕ) (value : Option (Option ν))
  | replace (id i : ℕ) (value : Option (Option ν))
  | complete (id i : ℕ)
  | move (id i : ℕ) (state : OrderState)
  | terminate (id : ℕ)
  | restore (id : ℕ)
  | revive (id : ℕ)

section Step

variable {ν : Type} [DecidableEq ν]

/-- A write to a resource that passes its checks, under the lock of the offering. -/
def write (resources : Resources ν) (id : ℕ) (check : Resource ν → Bool) (f : Resource ν → Resource ν)
    (hf : ∀ r, (f r).id = r.id) : Resources ν :=
  if (resources.get? id).any check then resources.update id f hf else resources

/-- An update order is rewritten. -/
def Resource.setChange (r : Resource ν) (i : ℕ) (f : Change ν → Change ν) : Resource ν :=
  { r with changes := r.changes.modify i f }

/-- `apply_new_options` of an update order that is done. -/
def Resource.complete (r : Resource ν) (i : ℕ) : Resource ν :=
  { r.setChange i fun c => { c with state := .done } with
    held := ((r.changes[i]?).bind Change.value).getD r.held }

def step (resources : Resources ν) : ResourceOp ν → Resources ν
  | .create value =>
    if validateUniqueOptions resources resources.freshId value then
      resources.add (fun id => { id := id, held := value }) fun _ => rfl
    else resources
  | .editCreateOrder id value =>
    write resources id (fun r => r.live && validateUniqueOptions resources id value)
      (fun r => { r with held := value }) fun _ => rfl
  | .update id value =>
    write resources id (fun r => r.live && validateChanged resources r value)
      (fun r => { r with held := value.getD r.held }) fun _ => rfl
  | .order id value =>
    write resources id (fun r => r.live && validateChanged resources r value)
      (fun r => { r with changes := r.changes ++ [⟨.pendingConsumer, value⟩] }) fun _ => rfl
  | .replace id i value =>
    write resources id (fun r => ((r.changes[i]?).any fun c => decide (c.state = .pendingProvider)) &&
        validateChanged resources r value)
      (fun r => r.setChange i fun c => { c with value := value }) fun _ => rfl
  | .complete id i =>
    write resources id (fun r => r.live && (r.changes[i]?).any fun c => decide (c.state = .executing))
      (fun r => r.complete i) fun _ => rfl
  | .move id i state =>
    write resources id (fun _ => true) (fun r => r.setChange i fun c => { c with state := state }) fun _ => rfl
  | .terminate id => write resources id (fun _ => true) (fun r => { r with live := false }) fun _ => rfl
  | .restore id =>
    write resources id (fun r => !r.live && validateUniqueOptions resources id r.held)
      (fun r => { r with live := true }) fun _ => rfl
  | .revive id => write resources id (fun _ => true) (fun r => { r with live := true }) fun _ => rfl

end Step

/-! ## No value twice -/

section Unique

variable {ν : Type} [DecidableEq ν] {resources : Resources ν}

/-- No two resources that are not terminated use one value. -/
def Unique (resources : Resources ν) : Prop := resources.Exclusive fun r v => r.uses v = true

/-- What comes back without a check: an update order that reserves nothing any more, the orders of a resource that is
restored, and a resource that is revived.  Nothing that these use is taken meanwhile. -/
def Guarded (resources : Resources ν) : ResourceOp ν → Prop
  | .move id i state => ∀ r, resources.get? id = some r → r.live = true → ∀ c, r.changes[i]? = some c →
      c.state ∉ pendingUpdateOrderStates → state ∈ pendingUpdateOrderStates →
        ∀ v, c.value = some (some v) → taken resources id v = false
  | .restore id => ∀ r, resources.get? id = some r → r.live = false →
      validateUniqueOptions resources id r.held = true →
        ∀ c ∈ r.changes, ∀ v, c.reserves v = true → taken resources id v = false
  | .revive id => ∀ r, resources.get? id = some r → r.live = false →
      ∀ v, { r with live := true }.uses v = true → taken resources id v = false
  | _ => True

theorem taken_iff {id : ℕ} {v : ν} : taken resources id v = true ↔
    resources.TakenFrom (fun r v => r.uses v = true) id v := by
  unfold taken Table.TakenFrom
  simp only [List.any_eq_true, Bool.and_eq_true, decide_eq_true_eq]

theorem taken_eq_false {id : ℕ} {v : ν} : taken resources id v = false ↔
    ¬ resources.TakenFrom (fun r v => r.uses v = true) id v := by
  rw [← taken_iff, Bool.not_eq_true]

/-- What a resource uses is not taken. -/
theorem Unique.not_taken (h : Unique resources) {id : ℕ} {r : Resource ν} (hget : resources.get? id = some r) {v : ν}
    (hv : r.uses v = true) : taken resources id v = false := by
  obtain ⟨hr, rfl⟩ := Table.get?_eq_some.mp hget
  exact taken_eq_false.mpr (Table.Exclusive.not_takenFrom h hr hv)

/-- A write keeps the values apart exactly if nothing is taken of what the resource uses then. -/
theorem unique_write (h : Unique resources) (id : ℕ) (check : Resource ν → Bool) (f : Resource ν → Resource ν)
    (hf : ∀ r, (f r).id = r.id) :
    Unique (write resources id check f hf) ↔ ∀ r, resources.get? id = some r → check r = true →
      ∀ v, (f r).uses v = true → taken resources id v = false := by
  unfold write
  cases hget : resources.get? id with
  | none => exact iff_of_true h fun r heq => absurd heq.symm (Option.some_ne_none r)
  | some r =>
    cases hcheck : check r with
    | false =>
      rw [if_neg (by simp [hcheck])]
      refine iff_of_true h fun r' heq hcheck' => ?_
      obtain rfl := Option.some.inj heq
      rw [hcheck] at hcheck'
      exact absurd hcheck' Bool.false_ne_true
    | true =>
      rw [if_pos (by simp [hcheck])]
      refine (Table.exclusive_update h hget f hf).trans ?_
      simp only [← taken_eq_false]
      refine ⟨fun hall r' heq _ => Option.some.inj heq ▸ hall, fun hall => hall r rfl hcheck⟩

theorem uses_iff {r : Resource ν} {v : ν} : r.uses v = true ↔
    r.live = true ∧ (r.held = some v ∨ ∃ c ∈ r.changes, c.reserves v = true) := by
  unfold Resource.uses
  simp only [Bool.and_eq_true, Bool.or_eq_true, decide_eq_true_eq, List.any_eq_true]

theorem reserves_iff {c : Change ν} {v : ν} : c.reserves v = true ↔
    c.state ∈ pendingUpdateOrderStates ∧ c.value = some (some v) := by
  unfold Change.reserves
  simp only [Bool.and_eq_true, decide_eq_true_eq]

theorem mem_modify {α : Type} {l : List α} {i : ℕ} {f : α → α} {b : α} (h : b ∈ l.modify i f) :
    b ∈ l ∨ ∃ a, l[i]? = some a ∧ b = f a := by
  obtain ⟨j, hj⟩ := List.mem_iff_getElem?.mp h
  rw [List.getElem?_modify] at hj
  obtain ⟨a, ha, hb⟩ := Option.map_eq_some_iff.mp hj
  split at hb
  · next heq => exact Or.inr ⟨a, heq ▸ ha, hb.symm⟩
  · exact Or.inl (hb ▸ List.mem_of_getElem? ha)

theorem mem_modify_self {α : Type} {l : List α} {i : ℕ} {f : α → α} {a : α} (h : l[i]? = some a) :
    f a ∈ l.modify i f := by
  refine List.mem_iff_getElem?.mpr ⟨i, ?_⟩
  rw [List.getElem?_modify, h]
  simp

/-- What a rewritten order adds. -/
theorem uses_setChange {r : Resource ν} {i : ℕ} {f : Change ν → Change ν} {v : ν}
    (h : (r.setChange i f).uses v = true) :
    r.uses v = true ∨ r.live = true ∧ ∃ c, r.changes[i]? = some c ∧ (f c).reserves v = true := by
  obtain ⟨hlive, hheld | ⟨c, hc, hreserves⟩⟩ := uses_iff.mp h
  · exact Or.inl (uses_iff.mpr ⟨hlive, Or.inl hheld⟩)
  · rcases mem_modify hc with hc | ⟨c, hi, rfl⟩
    · exact Or.inl (uses_iff.mpr ⟨hlive, Or.inr ⟨c, hc, hreserves⟩⟩)
    · exact Or.inr ⟨hlive, c, hi, hreserves⟩

/-- What a resource is given passes the check, or is its own. -/
theorem not_taken_of_changed (h : Unique resources) {id : ℕ} {r : Resource ν} (hget : resources.get? id = some r)
    (hlive : r.live = true) {value : Option (Option ν)} (hcheck : validateChanged resources r value = true) {v : ν}
    (hvalue : value = some (some v)) : taken resources id v = false := by
  have hid := (Table.get?_eq_some.mp hget).2
  subst hvalue
  unfold validateChanged at hcheck
  rw [Option.all_some, Bool.or_eq_true, decide_eq_true_eq] at hcheck
  rcases hcheck with hsame | hfree
  · exact h.not_taken hget (uses_iff.mpr ⟨hlive, Or.inl hsame.symm⟩)
  · unfold validateUniqueOptions at hfree
    rw [Option.all_some, Bool.not_eq_true', hid] at hfree
    exact hfree

theorem unique_create (h : Unique resources) (value : Option ν) : Unique (step resources (.create value)) := by
  change Unique (ite _ _ _)
  split
  · next hcheck =>
    refine (Table.exclusive_add h).mpr fun v hv => taken_eq_false.mp ?_
    obtain ⟨-, hheld | ⟨c, hc, -⟩⟩ := uses_iff.mp hv
    · change value = some v at hheld
      rw [hheld] at hcheck
      simpa [validateUniqueOptions] using hcheck
    · exact absurd hc List.not_mem_nil
  · exact h

theorem unique_editCreateOrder (h : Unique resources) (id : ℕ) (value : Option ν) :
    Unique (step resources (.editCreateOrder id value)) := by
  refine (unique_write h id _ _ _).mpr fun r hget hcheck v hv => ?_
  obtain ⟨hlive, hfree⟩ := Bool.and_eq_true_iff.mp hcheck
  obtain ⟨-, hheld | hreserved⟩ := uses_iff.mp hv
  · change value = some v at hheld
    rw [hheld] at hfree
    simpa [validateUniqueOptions] using hfree
  · exact h.not_taken hget (uses_iff.mpr ⟨hlive, Or.inr hreserved⟩)

theorem unique_update (h : Unique resources) (id : ℕ) (value : Option (Option ν)) :
    Unique (step resources (.update id value)) := by
  refine (unique_write h id _ _ _).mpr fun r hget hcheck v hv => ?_
  obtain ⟨hlive, hchanged⟩ := Bool.and_eq_true_iff.mp hcheck
  obtain ⟨-, hheld | hreserved⟩ := uses_iff.mp hv
  · cases value with
    | none => exact h.not_taken hget (uses_iff.mpr ⟨hlive, Or.inl hheld⟩)
    | some value => exact not_taken_of_changed h hget hlive hchanged (congrArg some hheld)
  · exact h.not_taken hget (uses_iff.mpr ⟨hlive, Or.inr hreserved⟩)

theorem unique_order (h : Unique resources) (id : ℕ) (value : Option (Option ν)) :
    Unique (step resources (.order id value)) := by
  refine (unique_write h id _ _ _).mpr fun r hget hcheck v hv => ?_
  obtain ⟨hlive, hchanged⟩ := Bool.and_eq_true_iff.mp hcheck
  obtain ⟨-, hheld | ⟨c, hc, hreserves⟩⟩ := uses_iff.mp hv
  · exact h.not_taken hget (uses_iff.mpr ⟨hlive, Or.inl hheld⟩)
  · rcases List.mem_append.mp hc with hc | hc
    · exact h.not_taken hget (uses_iff.mpr ⟨hlive, Or.inr ⟨c, hc, hreserves⟩⟩)
    · obtain rfl := List.mem_singleton.mp hc
      exact not_taken_of_changed h hget hlive hchanged (reserves_iff.mp hreserves).2

theorem unique_replace (h : Unique resources) (id i : ℕ) (value : Option (Option ν)) :
    Unique (step resources (.replace id i value)) := by
  refine (unique_write h id _ _ _).mpr fun r hget hcheck v hv => ?_
  obtain ⟨-, hchanged⟩ := Bool.and_eq_true_iff.mp hcheck
  rcases uses_setChange hv with hv | ⟨hlive, c, -, hreserves⟩
  · exact h.not_taken hget hv
  · exact not_taken_of_changed h hget hlive hchanged (reserves_iff.mp hreserves).2

/-- An order that is done gives the resource what it has reserved for it. -/
theorem unique_complete (h : Unique resources) (id i : ℕ) : Unique (step resources (.complete id i)) := by
  refine (unique_write h id _ _ _).mpr fun r hget hcheck v hv => h.not_taken hget ?_
  obtain ⟨hlive, hexecuting⟩ := Bool.and_eq_true_iff.mp hcheck
  cases hi : r.changes[i]? with
  | none =>
    rw [hi] at hexecuting
    exact absurd hexecuting Bool.false_ne_true
  | some c =>
    rw [hi, Option.any_some, decide_eq_true_eq] at hexecuting
    have hpending : c.state ∈ pendingUpdateOrderStates := by
      rw [hexecuting]
      decide
    obtain ⟨-, hheld | ⟨c', hc', hreserves⟩⟩ := uses_iff.mp hv
    · change ((r.changes[i]?).bind Change.value).getD r.held = some v at hheld
      rw [hi, Option.bind_some] at hheld
      cases hvalue : c.value with
      | none =>
        rw [hvalue] at hheld
        exact uses_iff.mpr ⟨hlive, Or.inl hheld⟩
      | some value =>
        rw [hvalue] at hheld
        have hreserves : c.reserves v = true := reserves_iff.mpr ⟨hpending, hvalue.trans (congrArg some hheld)⟩
        exact uses_iff.mpr ⟨hlive, Or.inr ⟨c, List.mem_of_getElem? hi, hreserves⟩⟩
    · rcases mem_modify hc' with hc' | ⟨done, -, rfl⟩
      · exact uses_iff.mpr ⟨hlive, Or.inr ⟨c', hc', hreserves⟩⟩
      · have hdone : OrderState.done ∈ pendingUpdateOrderStates := (reserves_iff.mp hreserves).1
        exact absurd hdone (by decide)

theorem unique_move_iff (h : Unique resources) (id i : ℕ) (state : OrderState) :
    Unique (step resources (.move id i state)) ↔ Guarded resources (.move id i state) := by
  refine (unique_write h id _ _ _).trans ?_
  constructor
  · intro hall r hget hlive c hi _ hstate v hvalue
    refine hall r hget rfl v (uses_iff.mpr ⟨hlive, Or.inr ⟨{ c with state := state }, ?_, ?_⟩⟩)
    · exact mem_modify_self hi
    · exact reserves_iff.mpr ⟨hstate, hvalue⟩
  · intro hguarded r hget _ v hv
    rcases uses_setChange hv with hv | ⟨hlive, c, hi, hreserves⟩
    · exact h.not_taken hget hv
    · obtain ⟨hstate, hvalue⟩ := reserves_iff.mp hreserves
      by_cases hbefore : c.state ∈ pendingUpdateOrderStates
      · have hc : c.reserves v = true := reserves_iff.mpr ⟨hbefore, hvalue⟩
        exact h.not_taken hget (uses_iff.mpr ⟨hlive, Or.inr ⟨c, List.mem_of_getElem? hi, hc⟩⟩)
      · exact hguarded r hget hlive c hi hbefore hstate v hvalue

theorem unique_terminate (h : Unique resources) (id : ℕ) : Unique (step resources (.terminate id)) := by
  refine (unique_write h id _ _ _).mpr fun r _ _ v hv => ?_
  exact absurd (uses_iff.mp hv).1 Bool.false_ne_true

theorem unique_restore_iff (h : Unique resources) (id : ℕ) :
    Unique (step resources (.restore id)) ↔ Guarded resources (.restore id) := by
  refine (unique_write h id _ _ _).trans ?_
  constructor
  · intro hall r hget hlive hfree c hc v hreserves
    exact hall r hget (by simp [hlive, hfree]) v (uses_iff.mpr ⟨rfl, Or.inr ⟨c, hc, hreserves⟩⟩)
  · intro hguarded r hget hcheck v hv
    obtain ⟨hlive, hfree⟩ := Bool.and_eq_true_iff.mp hcheck
    obtain ⟨-, hheld | ⟨c, hc, hreserves⟩⟩ := uses_iff.mp hv
    · change r.held = some v at hheld
      rw [hheld] at hfree
      simpa [validateUniqueOptions] using hfree
    · exact hguarded r hget (by simpa using hlive) hfree c hc v hreserves

theorem unique_revive_iff (h : Unique resources) (id : ℕ) :
    Unique (step resources (.revive id)) ↔ Guarded resources (.revive id) := by
  refine (unique_write h id _ _ _).trans ?_
  constructor
  · intro hall r hget _
    exact hall r hget rfl
  · intro hguarded r hget _ v hv
    cases hlive : r.live with
    | false => exact hguarded r hget hlive v hv
    | true =>
      refine h.not_taken hget ?_
      obtain ⟨-, huses⟩ := uses_iff.mp hv
      exact uses_iff.mpr ⟨hlive, huses⟩

theorem unique_step_iff (h : Unique resources) (op : ResourceOp ν) :
    Unique (step resources op) ↔ Guarded resources op := by
  cases op with
  | create value => exact iff_of_true (unique_create h value) trivial
  | editCreateOrder id value => exact iff_of_true (unique_editCreateOrder h id value) trivial
  | update id value => exact iff_of_true (unique_update h id value) trivial
  | order id value => exact iff_of_true (unique_order h id value) trivial
  | replace id i value => exact iff_of_true (unique_replace h id i value) trivial
  | complete id i => exact iff_of_true (unique_complete h id i) trivial
  | move id i state => exact unique_move_iff h id i state
  | terminate id => exact iff_of_true (unique_terminate h id) trivial
  | restore id => exact unique_restore_iff h id
  | revive id => exact unique_revive_iff h id

/-- Two resources of one value: the first is terminated, and its failed creation is retried. -/
example : (run step (Table.empty : Resources String)
    [.create (some "alpha"), .terminate 1, .create (some "alpha"), .revive 1]).rows.map (fun r => (r.live, r.held)) =
      [(true, some "alpha"), (true, some "alpha")] := by decide

end Unique

end Waldur.Marketplace.UniqueOptions
