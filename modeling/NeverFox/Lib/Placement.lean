import Mathlib.Algebra.Order.Ring.Nat
import Mathlib.Data.List.Count
import Mathlib.Logic.Function.Basic

namespace Placement

variable {π ι : Type*} [DecidableEq π] [DecidableEq ι]

-- Every token is in the list of its home, once, and in no other list.
def AtHome (lists : π → List ι) (home : ι → Option π) : Prop :=
  ∀ p i, (lists p).count i = if home i = some p then 1 else 0

-- The live tokens are placed, each in one list and once, and no others are.
def Placed (lists : π → List ι) (live : ι → Prop) : Prop :=
  ∃ home, AtHome lists home ∧ ∀ i, (home i).isSome ↔ live i

variable {lists : π → List ι} {home : ι → Option π} {live live' : ι → Prop} {p q : π} {i : ι}

theorem AtHome.mem_iff (h : AtHome lists home) : i ∈ lists p ↔ home i = some p := by
  rw [← List.count_pos_iff, h p i]
  split
  · simp_all
  · simp_all

namespace Placed

theorem once (h : Placed lists live) (hi : live i) :
    ∃ p, (lists p).count i = 1 ∧ ∀ q, q ≠ p → i ∉ lists q := by
  obtain ⟨home, hhome, hlive⟩ := h
  obtain ⟨p, hp⟩ := Option.isSome_iff_exists.mp ((hlive i).mpr hi)
  refine ⟨p, by rw [hhome p i, if_pos hp], fun q hq hm => hq ?_⟩
  exact Option.some.inj ((hhome.mem_iff.mp hm).symm.trans hp)

theorem home_unique (h : Placed lists live) (hp : i ∈ lists p) (hq : i ∈ lists q) : p = q := by
  obtain ⟨home, hhome, _⟩ := h
  exact Option.some.inj ((hhome.mem_iff.mp hp).symm.trans (hhome.mem_iff.mp hq))

theorem live_of_mem (h : Placed lists live) (hi : i ∈ lists p) : live i := by
  obtain ⟨home, hhome, hlive⟩ := h
  exact (hlive i).mp (by rw [hhome.mem_iff.mp hi]; rfl)

theorem live_iff (h : Placed lists live) : live i ↔ ∃ p, i ∈ lists p := by
  constructor
  · intro hi
    obtain ⟨p, hp, _⟩ := h.once hi
    exact ⟨p, List.count_pos_iff.mp (by omega)⟩
  · rintro ⟨p, hp⟩
    exact h.live_of_mem hp

theorem congr (h : Placed lists live) (hlive : ∀ i, live' i ↔ live i) : Placed lists live' := by
  obtain ⟨home, hhome, hl⟩ := h
  exact ⟨home, hhome, fun i => (hl i).trans (hlive i).symm⟩

theorem empty (hlists : ∀ p, lists p = []) (hlive : ∀ i, ¬live i) : Placed lists live :=
  ⟨fun _ => none, fun p i => by simp [hlists], fun i => by simp [hlive]⟩

-- A token that was nowhere is put at the end of a list.
theorem put (h : Placed lists live) (hi : ¬live i) :
    Placed (Function.update lists p (lists p ++ [i])) fun j => j = i ∨ live j := by
  obtain ⟨home, hhome, hlive⟩ := h
  have hnone : home i = none := by simpa using fun hs => hi ((hlive i).mp hs)
  refine ⟨Function.update home i (some p), fun r j => ?_, fun j => ?_⟩
  · have hold := hhome r j
    by_cases hj : j = i
    · subst hj
      rw [hnone, if_neg (by simp)] at hold
      by_cases hr : r = p
      · subst hr
        simp [hold]
      · simp [hr, hold, Ne.symm hr]
    · have hcount : [i].count j = 0 := List.count_eq_zero_of_not_mem (by simpa using hj)
      by_cases hr : r = p
      · subst hr
        simp [hj, hold, hcount]
      · simp [hr, hj, hold]
  · by_cases hj : j = i
    · subst hj
      simp
    · simp [hj, hlive]

-- The first token of a list is taken away.
theorem take {rest : List ι} (h : Placed lists live) (hp : lists p = i :: rest) :
    Placed (Function.update lists p rest) fun j => j ≠ i ∧ live j := by
  obtain ⟨home, hhome, hlive⟩ := h
  have hi : home i = some p := hhome.mem_iff.mp (by rw [hp]; exact List.mem_cons_self)
  refine ⟨Function.update home i none, fun r j => ?_, fun j => ?_⟩
  · have hold := hhome r j
    by_cases hr : r = p
    · subst hr
      rw [hp, List.count_cons] at hold
      by_cases hj : j = i
      · subst hj
        simp_all
      · simp_all [Ne.symm hj]
    · by_cases hj : j = i
      · subst hj
        rw [hi, if_neg (by simpa using Ne.symm hr)] at hold
        simp [hr, hold]
      · simp [hr, hj, hold]
  · by_cases hj : j = i
    · subst hj
      simp
    · simp [hj, hlive]

-- Tokens of one kind move from one list to the end of another.
theorem move (h : Placed lists live) (kind : ι → Bool) (hpq : p ≠ q) :
    Placed (Function.update (Function.update lists p ((lists p).filter fun i => !kind i)) q
      (lists q ++ (lists p).filter kind)) live := by
  obtain ⟨home, hhome, hlive⟩ := h
  refine ⟨fun j => if home j = some p ∧ kind j then some q else home j, fun r j => ?_, fun j => ?_⟩
  · have hp := hhome p j
    have hq := hhome q j
    have hr := hhome r j
    have hkept : ((lists p).filter fun i => !kind i).count j = if kind j then 0 else (lists p).count j := by
      cases hk : kind j with
      | true => exact List.count_eq_zero_of_not_mem (by simp [List.mem_filter, hk])
      | false => rw [List.count_filter (by simp [hk])]; simp
    have hmoved : ((lists p).filter kind).count j = if kind j then (lists p).count j else 0 := by
      cases hk : kind j with
      | true => rw [List.count_filter hk]; simp
      | false => exact List.count_eq_zero_of_not_mem (by simp [List.mem_filter, hk])
    by_cases hrq : r = q
    · subst hrq
      rw [Function.update_self, List.count_append, hmoved, hp, hq]
      by_cases hk : kind j <;> by_cases hj : home j = some p <;> simp_all
    · rw [Function.update_of_ne hrq]
      by_cases hrp : r = p
      · subst hrp
        rw [Function.update_self, hkept, hp]
        by_cases hk : kind j <;> by_cases hj : home j = some r <;> simp_all [Ne.symm hpq]
      · rw [Function.update_of_ne hrp, hr]
        by_cases hk : kind j <;> by_cases hj : home j = some p <;>
          simp_all [Ne.symm hrp, Ne.symm hrq]
  · dsimp only
    by_cases hj : home j = some p ∧ kind j
    · rw [if_pos hj, ← hlive, hj.1]
      rfl
    · rw [if_neg hj]
      exact hlive j

-- All that is in some of the lists moves to the end of another.
theorem gather (h : Placed lists live) (sources : π → Prop) [DecidablePred sources] (all : List ι)
    (hq : ¬sources q) (hin : ∀ p, sources p → ∀ i, (lists p).count i = 1 → all.count i = 1)
    (hout : ∀ i, (∀ p, sources p → i ∉ lists p) → i ∉ all) :
    Placed (fun r => if sources r then [] else if r = q then lists q ++ all else lists r) live := by
  obtain ⟨home, hhome, hlive⟩ := h
  refine ⟨fun j => if (home j).any fun p => sources p then some q else home j, fun r j => ?_, fun j => ?_⟩
  · have hr := hhome r j
    dsimp only
    rcases Option.eq_none_or_eq_some (home j) with hj | ⟨p, hj⟩
    · have hnone : j ∉ all := hout j fun p _ hm => by simp [hhome.mem_iff.mp hm] at hj
      rw [hj] at hr
      by_cases hs : sources r
      · simp [hs, hj]
      · by_cases hrq : r = q
        · subst hrq
          simpa [hs, hj, List.count_eq_zero_of_not_mem hnone] using hr
        · simpa [hs, hj, hrq] using hr
    · rw [hj] at hr
      have hcount : (lists p).count j = 1 := by rw [hhome p j, if_pos hj]
      by_cases hp : sources p
      · have hall := hin p hp j hcount
        by_cases hs : sources r
        · have hne : q ≠ r := fun he => hq (he ▸ hs)
          simp [hs, hj, hp, hne]
        · have hne : p ≠ r := fun he => hs (he ▸ hp)
          by_cases hrq : r = q
          · subst hrq
            simpa [hs, hj, hp, hall, hne] using hr
          · simpa [hs, hj, hp, hrq, Ne.symm hrq, hne] using hr
      · have hnot : j ∉ all := by
          refine hout j fun p' hp' hm => hp ?_
          rw [hhome.mem_iff, hj] at hm
          exact Option.some.inj hm ▸ hp'
        by_cases hs : sources r
        · have hne : p ≠ r := fun he => hp (he ▸ hs)
          simp [hs, hj, hp, hne]
        · by_cases hrq : r = q
          · subst hrq
            simpa [hs, hj, hp, List.count_eq_zero_of_not_mem hnot] using hr
          · simpa [hs, hj, hp, hrq] using hr
  · dsimp only
    rw [← hlive]
    rcases Option.eq_none_or_eq_some (home j) with hj | ⟨p, hj⟩
    · simp [hj]
    · by_cases hp : sources p <;> simp [hj, hp]

end Placed

end Placement
