import Mathlib

/-!
# Pledges — values that are read when a change is requested, and written when it is carried out

A pledge on a key holds the value that the key had and the value that it will have.  Fulfilling it writes that value,
whatever the key holds by then.  While every key has one open pledge at most nothing is lost by this: the values grow
by what the fulfilled pledges say (`Sound.balance_fulfil`).
-/

namespace Pledges

inductive Status
  | live
  | fulfilled
  | dropped
deriving DecidableEq

structure Pledge (κ V : Type) where
  key : κ
  old : V
  new : V
  status : Status

structure State (κ V : Type) where
  values : κ → V
  pledges : List (Pledge κ V)

variable {κ V : Type}

def Pledge.isLive (p : Pledge κ V) : Prop := p.status = .live

namespace State

variable (s : State κ V)

/-- A key is free while it has no live pledge. -/
def Free (k : κ) : Prop := ∀ p ∈ s.pledges, p.isLive → p.key ≠ k

/-- A new pledge on a key. -/
def pledge (k : κ) (new : V) : State κ V := { s with pledges := s.pledges ++ [⟨k, s.values k, new, .live⟩] }

/-- A pledge is dropped. -/
def drop (i : ℕ) (p : Pledge κ V) : State κ V := { s with pledges := s.pledges.set i { p with status := .dropped } }

/-- A pledge is fulfilled. -/
def fulfil [DecidableEq κ] (i : ℕ) (p : Pledge κ V) : State κ V where
  values := Function.update s.values p.key p.new
  pledges := s.pledges.set i { p with status := .fulfilled }

end State

/-- **One live pledge for a key, and it tells the value of the key.** -/
structure Sound (s : State κ V) : Prop where
  distinct : ∀ (i j : ℕ) (p q : Pledge κ V), i ≠ j → s.pledges[i]? = some p → s.pledges[j]? = some q → p.isLive → q.isLive → p.key ≠ q.key
  current : ∀ p ∈ s.pledges, p.isLive → s.values p.key = p.old

section Sound

variable {s : State κ V} {k : κ} {new : V} {i : ℕ} {p : Pledge κ V}

theorem sound_nil (values : κ → V) : Sound ⟨values, []⟩ :=
  ⟨fun _ _ _ _ _ h => absurd h (by rw [List.getElem?_nil]; exact nofun), fun _ h => absurd h List.not_mem_nil⟩

/-- A pledge on a free key. -/
theorem Sound.pledge (h : Sound s) (hfree : s.Free k) : Sound (s.pledge k new) := by
  have hcases : ∀ i p, (s.pledges ++ [⟨k, s.values k, new, .live⟩])[i]? = some p →
      s.pledges[i]? = some p ∨ i = s.pledges.length ∧ p = ⟨k, s.values k, new, .live⟩ := by
    intro i p hp
    rcases lt_or_ge i s.pledges.length with hi | hi
    · rw [List.getElem?_append_left hi] at hp
      exact Or.inl hp
    · rw [List.getElem?_append_right hi, List.getElem?_singleton] at hp
      split at hp
      · next hzero => exact Or.inr ⟨by omega, (Option.some.inj hp).symm⟩
      · exact nomatch hp
  refine ⟨fun i j p q hij hp hq hlive hlive' => ?_, fun p hp hlive => ?_⟩
  · rcases hcases i p hp with hp | ⟨rfl, rfl⟩ <;> rcases hcases j q hq with hq | ⟨rfl, rfl⟩
    · exact h.distinct i j p q hij hp hq hlive hlive'
    · exact hfree p (List.mem_of_getElem? hp) hlive
    · exact (hfree q (List.mem_of_getElem? hq) hlive').symm
    · exact absurd rfl hij
  · rcases List.mem_append.mp hp with hp | hp
    · exact h.current p hp hlive
    · obtain rfl := List.mem_singleton.mp hp
      rfl

/-- The pledges that stay live where one of them is settled. -/
theorem live_of_set {settled : Pledge κ V} (hsettled : ¬ settled.isLive) {j : ℕ} {q : Pledge κ V}
    (hq : (s.pledges.set i settled)[j]? = some q) (hlive : q.isLive) : i ≠ j ∧ s.pledges[j]? = some q := by
  rw [List.getElem?_set] at hq
  split at hq
  · split at hq
    · obtain rfl := Option.some.inj hq
      exact absurd hlive hsettled
    · exact nomatch hq
  · next hij => exact ⟨hij, hq⟩

theorem Sound.drop (h : Sound s) (p : Pledge κ V) : Sound (s.drop i p) := by
  have hsettled : ¬ ({ p with status := .dropped } : Pledge κ V).isLive := nofun
  refine ⟨fun j j' q q' hjj hq hq' hlive hlive' => ?_, fun q hq hlive => ?_⟩
  · exact h.distinct j j' q q' hjj (live_of_set hsettled hq hlive).2 (live_of_set hsettled hq' hlive').2 hlive hlive'
  · obtain ⟨j, hj⟩ := List.mem_iff_getElem?.mp hq
    exact h.current q (List.mem_of_getElem? (live_of_set hsettled hj hlive).2) hlive

variable [DecidableEq κ]

/-- The other live pledges are on other keys. -/
theorem Sound.fulfil (h : Sound s) (hp : s.pledges[i]? = some p) (hlive : p.isLive) : Sound (s.fulfil i p) := by
  have hsettled : ¬ ({ p with status := .fulfilled } : Pledge κ V).isLive := nofun
  refine ⟨fun j j' q q' hjj hq hq' hlive hlive' => ?_, fun q hq hlive' => ?_⟩
  · exact h.distinct j j' q q' hjj (live_of_set hsettled hq hlive).2 (live_of_set hsettled hq' hlive').2 hlive hlive'
  · obtain ⟨j, hj⟩ := List.mem_iff_getElem?.mp hq
    obtain ⟨hij, hq'⟩ := live_of_set hsettled hj hlive'
    have hkey := h.distinct i j p q hij hp hq' hlive hlive'
    change Function.update s.values p.key p.new q.key = q.old
    rw [Function.update_of_ne hkey.symm]
    exact h.current q (List.mem_of_getElem? hq') hlive'

end Sound

/-! ## What the values add up to -/

section Balance

variable [AddCommGroup V]

/-- What a pledge has added. -/
def Pledge.gain (p : Pledge κ V) : V := if p.status = .fulfilled then p.new - p.old else 0

/-- What the pledges have added. -/
def State.gains (s : State κ V) : V := (s.pledges.map Pledge.gain).sum

variable {s : State κ V} {k : κ} {new : V} {i : ℕ} {p : Pledge κ V} {keys : Finset κ}

theorem gain_of_live (h : p.isLive) : p.gain = 0 := by
  have hlive : p.status = .live := h
  unfold Pledge.gain
  rw [hlive]
  exact if_neg nofun

theorem gains_pledge : (s.pledge k new).gains = s.gains := by
  have hgain : (⟨k, s.values k, new, .live⟩ : Pledge κ V).gain = 0 := gain_of_live rfl
  unfold State.gains State.pledge
  rw [List.map_append, List.sum_append, List.map_singleton, List.sum_singleton, hgain, add_zero]

/-- A live pledge that is settled adds its gain. -/
theorem gains_set (hp : s.pledges[i]? = some p) (hlive : p.isLive) (settled : Pledge κ V) :
    ((s.pledges.set i settled).map Pledge.gain).sum = s.gains + settled.gain := by
  obtain ⟨hi, rfl⟩ := List.getElem?_eq_some_iff.mp hp
  have hi' : i < (s.pledges.map Pledge.gain).length := by rwa [List.length_map]
  rw [List.map_set, List.sum_set', dif_pos hi', List.getElem_map, gain_of_live hlive, neg_zero, zero_add]
  rfl

theorem gains_drop (hp : s.pledges[i]? = some p) (hlive : p.isLive) : (s.drop i p).gains = s.gains := by
  refine (gains_set hp hlive _).trans ?_
  change s.gains + 0 = s.gains
  exact add_zero _

variable [DecidableEq κ]

theorem gains_fulfil (hp : s.pledges[i]? = some p) (hlive : p.isLive) :
    (s.fulfil i p).gains = s.gains + (p.new - p.old) :=
  gains_set hp hlive _

/-- **Nothing is lost**: the values of the keys grow by what the pledge says. -/
theorem Sound.balance_fulfil (h : Sound s) (hp : s.pledges[i]? = some p) (hlive : p.isLive) (hkey : p.key ∈ keys) :
    ∑ k ∈ keys, (s.fulfil i p).values k - (s.fulfil i p).gains = ∑ k ∈ keys, s.values k - s.gains := by
  have hold := h.current p (List.mem_of_getElem? hp) hlive
  change ∑ k ∈ keys, Function.update s.values p.key p.new k - _ = _
  rw [gains_fulfil hp hlive, Finset.sum_update_of_mem hkey, ← Finset.add_sum_erase keys s.values hkey, hold,
    Finset.sdiff_singleton_eq_erase]
  abel

end Balance

end Pledges
