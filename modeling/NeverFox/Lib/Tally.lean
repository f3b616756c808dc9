import Mathlib.Data.Set.Card
import Mathlib.Logic.Function.Basic

namespace Tally

variable {ι κ : Type*}

-- How many of a family of parties are in a phase of some kind.
noncomputable def tally (phase : ι → κ) (kind : κ → Prop) : ℕ∞ := {i | kind (phase i)}.encard

theorem tally_none {phase : ι → κ} {kind : κ → Prop} (h : ∀ i, ¬kind (phase i)) :
    tally phase kind = 0 := by
  rw [tally, Set.encard_eq_zero, Set.eq_empty_iff_forall_notMem]
  exact h

theorem tally_pos {phase : ι → κ} {kind : κ → Prop} {i : ι} (h : kind (phase i)) :
    tally phase kind ≠ 0 := by
  rw [tally, Set.encard_ne_zero]
  exact ⟨i, h⟩

theorem eq_of_add_one {x : ℕ∞} {n : ℕ} (h : x + 1 = n) : ∃ m : ℕ, x = m ∧ m + 1 = n := by
  obtain ⟨m, rfl⟩ := ENat.ne_top_iff_exists.mp fun htop : x = ⊤ => by simp [htop] at h
  exact ⟨m, rfl, by exact_mod_cast h⟩

variable [DecidableEq ι] {phase : ι → κ} {kind : κ → Prop} {i : ι} {next : κ}

-- A party moves on and stays on its side of the count.
theorem tally_stay (h : kind next ↔ kind (phase i)) :
    tally (Function.update phase i next) kind = tally phase kind := by
  refine congrArg Set.encard (Set.ext fun j => ?_)
  by_cases hj : j = i
  · subst hj
    simpa using h
  · simp [hj]

theorem tally_enter (hold : ¬kind (phase i)) (hnew : kind next) :
    tally (Function.update phase i next) kind = tally phase kind + 1 := by
  have hset : {j | kind (Function.update phase i next j)} = insert i {j | kind (phase j)} := by
    ext j
    by_cases hj : j = i
    · subst hj
      simpa using hnew
    · simp [hj]
  rw [tally, hset]
  exact Set.encard_insert_of_notMem hold

theorem tally_leave (hold : kind (phase i)) (hnew : ¬kind next) :
    tally (Function.update phase i next) kind + 1 = tally phase kind := by
  have hback : tally (Function.update (Function.update phase i next) i (phase i)) kind =
      tally (Function.update phase i next) kind + 1 := tally_enter (by simpa using hnew) hold
  rw [Function.update_idem, Function.update_eq_self] at hback
  exact hback.symm

end Tally
