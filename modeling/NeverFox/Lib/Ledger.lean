import Mathlib.Data.Finset.Insert
import Mathlib.Data.Finset.Union
import Mathlib.Data.List.Count
import NeverFox.Lib.Run

namespace Ledger

variable {ι : Type*} [DecidableEq ι]

-- What is done with a handle.
inductive Entry (ι : Type*)
  | acquire (i : ι)
  | use (i : ι)
  | release (i : ι)
  deriving DecidableEq

def Entry.handle {ι : Type*} : Entry ι → ι
  | .acquire i | .use i | .release i => i

-- The handles held behind an entry. None is acquired while it is held, and none
-- is used or released but while it is.
def post (held : Finset ι) : Entry ι → Option (Finset ι)
  | .acquire i => if i ∈ held then none else some (insert i held)
  | .use i => if i ∈ held then some held else none
  | .release i => if i ∈ held then some (held.erase i) else none

-- A trace of entries that keeps to the rules, with what is held around it.
def Spends (trace : List (Entry ι)) (held held' : Finset ι) : Prop :=
  Transition.run post held trace = some held'

namespace Spends

variable {trace more : List (Entry ι)} {held held' held'' : Finset ι} {i : ι}

theorem nil (held : Finset ι) : Spends [] held held := rfl

theorem append (h : Spends trace held held') (h' : Spends more held' held'') :
    Spends (trace ++ more) held held'' := by
  unfold Spends at h h' ⊢
  rw [Transition.run_append, h, Option.bind_some, h']

theorem acquire (h : i ∉ held) : Spends [.acquire i] held (insert i held) := by
  unfold Spends
  exact Transition.run_cons_eq_some.mpr ⟨_, if_neg h, rfl⟩

theorem release (h : i ∈ held) : Spends [.release i] held (held.erase i) := by
  unfold Spends
  exact Transition.run_cons_eq_some.mpr ⟨_, if_pos h, rfl⟩

theorem uses {is : List ι} (h : ∀ i ∈ is, i ∈ held) : Spends (is.map .use) held held := by
  induction is with
  | nil => exact nil held
  | cons i is ih =>
      refine Transition.run_cons_eq_some.mpr ⟨held, if_pos (h i List.mem_cons_self), ?_⟩
      exact ih fun j hj => h j (List.mem_cons_of_mem i hj)

-- Every handle is released as often as it is acquired, but for those still held.
theorem account (h : Spends trace held held') (i : ι) :
    trace.count (.acquire i) + (if i ∈ held then 1 else 0) =
      trace.count (.release i) + if i ∈ held' then 1 else 0 := by
  induction trace generalizing held with
  | nil =>
      obtain rfl := Option.some.inj h
      rfl
  | cons e trace ih =>
      obtain ⟨mid, hstep, hrun⟩ := Transition.run_cons_eq_some.mp h
      have hrest := ih hrun
      cases e with
      | acquire j =>
          simp only [post, Option.ite_none_left_eq_some, Option.some.injEq] at hstep
          obtain ⟨hj, rfl⟩ := hstep
          by_cases hij : i = j
          · subst hij
            simp [hj] at hrest ⊢
            omega
          · simp [hij, Ne.symm hij] at hrest ⊢
            omega
      | use j =>
          simp only [post, Option.ite_none_right_eq_some, Option.some.injEq] at hstep
          obtain ⟨_, rfl⟩ := hstep
          simpa using hrest
      | release j =>
          simp only [post, Option.ite_none_right_eq_some, Option.some.injEq] at hstep
          obtain ⟨hj, rfl⟩ := hstep
          by_cases hij : i = j
          · subst hij
            simp [hj] at hrest ⊢
            omega
          · simp [hij, Ne.symm hij] at hrest ⊢
            omega

end Spends

end Ledger
