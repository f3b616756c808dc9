import Mathlib.Algebra.Order.Field.Basic
import Mathlib.Data.List.Chain
import Mathlib.Tactic.Linarith
import Mathlib.Tactic.Ring

namespace Pacing

variable {K : Type*} [Field K] [LinearOrder K]

-- One reservation: when it was asked for, the slot it got and how far from the
-- slot it is moved.
structure Reservation (K : Type*) where
  now : K
  slot : K
  shift : K

-- The time until a reservation, which is never in the past.
def Reservation.wait (r : Reservation K) : K := max 0 (r.slot - r.now + r.shift)

def Reservation.target (r : Reservation K) : K := r.now + r.wait

-- A slot that is not over when it is given, moved no further than allowed.
structure Reservation.Sound (allowed : K) (r : Reservation K) : Prop where
  due : r.now ≤ r.slot
  early : -allowed ≤ r.shift
  late : r.shift ≤ allowed

-- Every slot is at least an interval behind the one before.
def Spaced (interval : K) (rs : List (Reservation K)) : Prop :=
  rs.IsChain fun a b => a.slot + interval ≤ b.slot

theorem Reservation.wait_nonneg (r : Reservation K) : 0 ≤ r.wait := le_max_left _ _

variable [IsStrictOrderedRing K]

-- The clamp at zero never moves a target beyond its slot.
theorem Reservation.target_le {allowed : K} {r : Reservation K} (h : r.Sound allowed) :
    r.target ≤ r.slot + allowed := by
  have hlow := h.early
  have hhigh := h.late
  have hdue := h.due
  unfold target wait
  rcases max_cases (0 : K) (r.slot - r.now + r.shift) with ⟨hmax, _⟩ | ⟨hmax, _⟩ <;> rw [hmax] <;> linarith

theorem Reservation.le_target {allowed : K} {r : Reservation K} (h : r.Sound allowed) :
    r.slot - allowed ≤ r.target := by
  have hlow := h.early
  have hmax : r.slot - r.now + r.shift ≤ r.wait := le_max_right _ _
  unfold target
  linarith

theorem Spaced.slot_le {interval : K} {rs : List (Reservation K)} (h : Spaced interval rs) (i n : Nat)
    (hi : i + n < rs.length) : (rs[i]).slot + n * interval ≤ (rs[i + n]).slot := by
  induction n with
  | zero => simp
  | succ n ih =>
      have hbefore := ih (by omega)
      have hstep : (rs[i + n]).slot + interval ≤ (rs[i + n + 1]).slot :=
        List.isChain_iff_getElem.mp h (i + n) (by omega)
      have hsame : (rs[i + (n + 1)]).slot = (rs[i + n + 1]).slot := rfl
      rw [hsame]
      push_cast
      linarith

-- The shifts do not add up: however many reservations lie between two, their
-- targets come closer by no more than two shifts.
theorem Spaced.target_le {interval allowed : K} {rs : List (Reservation K)} (h : Spaced interval rs)
    (hsound : ∀ r ∈ rs, r.Sound allowed) (i n : Nat) (hi : i + n < rs.length) :
    n * interval - 2 * allowed ≤ (rs[i + n]).target - (rs[i]).target := by
  have hslots := h.slot_le i n hi
  have hfirst := Reservation.target_le (hsound _ (List.getElem_mem (show i < rs.length by omega)))
  have hlast := Reservation.le_target (hsound _ (List.getElem_mem hi))
  linarith

end Pacing
