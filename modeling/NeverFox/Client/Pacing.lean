import NeverFox.Client.Copies
import NeverFox.Lib.Pacing
import Mathlib.Algebra.Order.Ring.Rat

namespace NeverFox.Client.Copies

-- `RateLimiter.__init__`.
def RateLimiter.new (rate : Rat) : RateLimiter := ⟨if 0 < rate then 1 / rate else 0, .empty⟩

-- `RateLimiter.delay`, given what the clock shows and the jitter that is drawn.
def RateLimiter.delay (limiter : RateLimiter) (host : String) (now jitter : Rat) : Rat × RateLimiter :=
  if limiter.interval = 0 then (0, limiter) else limiter.reserve host now jitter

-- A call of `delay`, in the order of the lock.
structure DelayCall where
  host : String
  now : Rat
  jitter : Rat

-- A call with the slot that is reserved for it and the delay it gets.
structure Serving where
  call : DelayCall
  slot : Rat
  delay : Rat

def servings (limiter : RateLimiter) : List DelayCall → List Serving
  | [] => []
  | call :: rest =>
      let (wait, next) := limiter.delay call.host call.now call.jitter
      ⟨call, max call.now ((limiter.next.get? call.host).getD 0), wait⟩ :: servings next rest

def Serving.target (x : Serving) : Rat := x.call.now + x.delay

-- What the calls for one host get.
def servedTo (host : String) (xs : List Serving) : List Serving := xs.filter fun x => x.call.host = host

-- A serving as a reservation of its slot.
def Serving.reservation (interval : Rat) (x : Serving) : Pacing.Reservation Rat :=
  ⟨x.call.now, x.slot, interval * x.call.jitter⟩

-- A session's delays are the limiter's, with its clock and its jitter.
theorem env_delay_eq {W : Type} (env : Env W) (host : String) (σ : Shared W) :
    ((env.delay host σ).1, (env.delay host σ).2.limiter) =
      σ.limiter.delay host (env.monotonic σ.world) (env.uniform (-15 / 100) (15 / 100) σ.world).1 := by
  unfold Env.delay RateLimiter.delay
  split
  · rfl
  · rcases env.uniform (-15 / 100) (15 / 100) σ.world with ⟨jitter, w⟩
    rfl

theorem delay_of_ne {limiter : RateLimiter} (h : limiter.interval ≠ 0) (host : String) (now jitter : Rat) :
    limiter.delay host now jitter = limiter.reserve host now jitter := if_neg h

theorem next_reserve (limiter : RateLimiter) (host other : String) (now jitter : Rat) :
    ((limiter.reserve host now jitter).2.next.get? other).getD 0 =
      if other = host then max now ((limiter.next.get? host).getD 0) + limiter.interval
      else (limiter.next.get? other).getD 0 := by
  rw [RateLimiter.reserve, Dict.get?_set]
  split <;> rfl

theorem servings_cons {limiter : RateLimiter} (h : limiter.interval ≠ 0) (call : DelayCall)
    (rest : List DelayCall) : servings limiter (call :: rest) =
      ⟨call, max call.now ((limiter.next.get? call.host).getD 0),
        (limiter.reserve call.host call.now call.jitter).1⟩ ::
          servings (limiter.reserve call.host call.now call.jitter).2 rest := by
  rw [servings, delay_of_ne h]

-- Each delay is the wait for the reservation, whose slot is not over.
theorem serving_sound {limiter : RateLimiter} (h : limiter.interval ≠ 0) {calls : List DelayCall}
    {x : Serving} (hx : x ∈ servings limiter calls) :
    x.call ∈ calls ∧ x.call.now ≤ x.slot ∧ x.delay = (x.reservation limiter.interval).wait := by
  induction calls generalizing limiter with
  | nil => cases hx
  | cons call rest ih =>
      rw [servings_cons h] at hx
      rcases List.mem_cons.mp hx with rfl | hx
      · exact ⟨List.mem_cons_self, le_max_left _ _, rfl⟩
      · obtain ⟨hcall, hdue, hdelay⟩ := @ih (limiter.reserve call.host call.now call.jitter).2 h hx
        exact ⟨List.mem_cons_of_mem _ hcall, hdue, hdelay⟩

-- The slots of one host are spaced, from the host's next slot on.
theorem spaced_servings {limiter : RateLimiter} (h : limiter.interval ≠ 0) (host : String)
    (calls : List DelayCall) :
    Pacing.Spaced limiter.interval
      ((servedTo host (servings limiter calls)).map (Serving.reservation limiter.interval)) ∧
    ∀ x ∈ (servedTo host (servings limiter calls)).head?, (limiter.next.get? host).getD 0 ≤ x.slot := by
  induction calls generalizing limiter with
  | nil => exact ⟨.nil, nofun⟩
  | cons call rest ih =>
      obtain ⟨hspaced, hfirst⟩ := @ih (limiter.reserve call.host call.now call.jitter).2 h
      rw [next_reserve] at hfirst
      rw [servings_cons h, servedTo, List.filter_cons]
      by_cases hhost : call.host = host
      · rw [if_pos hhost.symm] at hfirst
        rw [if_pos (by simpa using hhost)]
        refine ⟨?_, ?_⟩
        · rw [List.map_cons, Pacing.Spaced, List.isChain_cons]
          refine ⟨?_, hspaced⟩
          intro r hr
          rw [List.head?_map] at hr
          obtain ⟨x, hx, rfl⟩ := Option.map_eq_some_iff.mp hr
          exact hfirst x hx
        · intro x hx
          obtain rfl := Option.some.inj hx
          rw [hhost]
          exact le_max_right _ _
      · rw [if_neg fun he => hhost he.symm] at hfirst
        rw [if_neg (by simpa using hhost)]
        exact ⟨hspaced, hfirst⟩

-- What a host is served depends on its own next slot only.
theorem servedTo_eq {limiter other : RateLimiter} (h : limiter.interval ≠ 0)
    (hinterval : other.interval = limiter.interval) (host : String)
    (hnext : (other.next.get? host).getD 0 = (limiter.next.get? host).getD 0) (calls : List DelayCall) :
    servedTo host (servings limiter calls) =
      servings other (calls.filter fun call => call.host = host) := by
  induction calls generalizing limiter other with
  | nil => rfl
  | cons call rest ih =>
      rw [servings_cons h, servedTo, List.filter_cons, List.filter_cons]
      by_cases hhost : call.host = host
      · have hrest := @ih (limiter.reserve call.host call.now call.jitter).2
          (other.reserve call.host call.now call.jitter).2 h hinterval (by
            rw [next_reserve, next_reserve, hhost, hnext, hinterval])
        rw [if_pos (by simpa using hhost), if_pos (by simpa using hhost), servings_cons (by rwa [hinterval]),
          ← hrest, hhost, hnext]
        have hwait : (other.reserve host call.now call.jitter).1 =
            (limiter.reserve host call.now call.jitter).1 := by
          rw [RateLimiter.reserve, RateLimiter.reserve, hnext, hinterval]
        rw [hwait]
        rfl
      · rw [if_neg (by simpa using hhost), if_neg (by simpa using hhost)]
        refine @ih (limiter.reserve call.host call.now call.jitter).2 other h hinterval ?_
        rw [next_reserve, if_neg fun he => hhost he.symm, hnext]

-- The targets of one host are spaced by the interval but for the jitter of two
-- calls, no delay is negative or runs past its slot by more than the jitter, and
-- the calls for other hosts change nothing.
theorem paced (rate : Rat) (hrate : 0 < rate) (calls : List DelayCall)
    (hjitter : ∀ call ∈ calls, -15 / 100 ≤ call.jitter ∧ call.jitter ≤ 15 / 100) :
    (∀ host i n, (hi : i + n < (servedTo host (servings (.new rate) calls)).length) →
      (n - 3 / 10) * (1 / rate) ≤ ((servedTo host (servings (.new rate) calls))[i + n]).target -
        ((servedTo host (servings (.new rate) calls))[i]).target) ∧
    (∀ x ∈ servings (.new rate) calls, 0 ≤ x.delay ∧ x.target ≤ x.slot + 15 / 100 * (1 / rate)) ∧
    ∀ host, servedTo host (servings (.new rate) calls) =
      servings (.new rate) (calls.filter fun call => call.host = host) := by
  have hinterval : (RateLimiter.new rate).interval = 1 / rate := if_pos hrate
  have hpos : 0 < (RateLimiter.new rate).interval := by
    rw [hinterval]
    exact one_div_pos.mpr hrate
  rw [← hinterval]
  have hne : (RateLimiter.new rate).interval ≠ 0 := hpos.ne'
  have hsound : ∀ x ∈ servings (.new rate) calls,
      (x.reservation (RateLimiter.new rate).interval).Sound (15 / 100 * (RateLimiter.new rate).interval) := by
    intro x hx
    obtain ⟨hcall, hdue, _⟩ := serving_sound hne hx
    obtain ⟨hlow, hhigh⟩ := hjitter x.call hcall
    refine ⟨hdue, ?_, ?_⟩
    · have := mul_le_mul_of_nonneg_left hlow hpos.le
      simp only [Serving.reservation]
      linarith
    · have := mul_le_mul_of_nonneg_left hhigh hpos.le
      simp only [Serving.reservation]
      linarith
  have htarget : ∀ x ∈ servings (.new rate) calls,
      x.target = (x.reservation (RateLimiter.new rate).interval).target := by
    intro x hx
    rw [Serving.target, (serving_sound hne hx).2.2]
    rfl
  refine ⟨?_, ?_, ?_⟩
  · intro host i n hi
    have hmem : ∀ x ∈ servedTo host (servings (.new rate) calls), x ∈ servings (.new rate) calls :=
      fun x hx => (List.mem_filter.mp hx).1
    have hserved : ∀ r ∈ (servedTo host (servings (.new rate) calls)).map
        (Serving.reservation (RateLimiter.new rate).interval),
        r.Sound (15 / 100 * (RateLimiter.new rate).interval) := by
      intro r hr
      obtain ⟨x, hx, rfl⟩ := List.mem_map.mp hr
      exact hsound x (hmem x hx)
    have hspaced := (spaced_servings hne host calls).1.target_le hserved i n (by rwa [List.length_map])
    rw [List.getElem_map, List.getElem_map, ← htarget _ (hmem _ (List.getElem_mem hi)),
      ← htarget _ (hmem _ (List.getElem_mem (by omega)))] at hspaced
    linarith
  · intro x hx
    rw [htarget x hx, (serving_sound hne hx).2.2]
    exact ⟨Pacing.Reservation.wait_nonneg _, Pacing.Reservation.target_le (hsound x hx)⟩
  · intro host
    exact servedTo_eq hne rfl host rfl calls

-- Three calls at once, two of them for one host.
theorem paced_burst :
    (1 - 3 / 10) * (1 / 2) ≤ ((servedTo "a" (servings (.new 2)
        [⟨"a", 10, 0⟩, ⟨"b", 10, 0⟩, ⟨"a", 10, -15 / 100⟩])).get ⟨1, by decide +kernel⟩).target -
      ((servedTo "a" (servings (.new 2)
        [⟨"a", 10, 0⟩, ⟨"b", 10, 0⟩, ⟨"a", 10, -15 / 100⟩])).get ⟨0, by decide +kernel⟩).target := by
  have hall := (paced 2 (by decide +kernel) [⟨"a", 10, 0⟩, ⟨"b", 10, 0⟩, ⟨"a", 10, -15 / 100⟩] (by
    intro call hcall
    simp only [List.mem_cons, List.not_mem_nil, or_false] at hcall
    rcases hcall with rfl | rfl | rfl <;> constructor <;> decide +kernel)).1 "a" 0 1 (by decide +kernel)
  simpa using hall

end NeverFox.Client.Copies
