import Mathlib.Algebra.Order.Ring.Nat
import Mathlib.Data.List.Basic

-- A stream, and how a network cuts it: the i-th read is offered `cuts i`
-- elements, at least one while there are some, and gets no more than it asks for.
structure Feed (β : Type*) where
  data : List β
  cuts : Nat → Nat

namespace Feed

variable {β : Type*} (f : Feed β)

def size (n : Nat) : Nat := min (max 1 (f.cuts 0)) (min n f.data.length)

def read (n : Nat) : List β × Feed β :=
  (f.data.take (f.size n), ⟨f.data.drop (f.size n), fun i => f.cuts (i + 1)⟩)

theorem size_le (n : Nat) : f.size n ≤ n := by
  unfold size
  omega

theorem size_le_data (n : Nat) : f.size n ≤ f.data.length := by
  unfold size
  omega

@[simp] theorem read_length (n : Nat) : (f.read n).1.length = f.size n := by
  have h := f.size_le_data n
  simp only [read, List.length_take]
  omega

@[simp] theorem read_append (n : Nat) : (f.read n).1 ++ (f.read n).2.data = f.data :=
  List.take_append_drop _ _

@[simp] theorem read_cuts (n i : Nat) : (f.read n).2.cuts i = f.cuts (i + 1) := rfl

-- A read comes back empty at the end of the stream only.
theorem read_eq_nil {n : Nat} (hn : 0 < n) : (f.read n).1 = [] ↔ f.data = [] := by
  rw [← List.length_eq_zero_iff, read_length, ← List.length_eq_zero_iff, size]
  omega

-- A read that the network offers enough for is as long as the stream allows.
theorem read_enough {n : Nat} (h : n ≤ max 1 (f.cuts 0)) :
    (f.read n).1 = f.data.take n ∧ (f.read n).2.data = f.data.drop n := by
  have hsize : f.size n = min n f.data.length := by
    unfold size
    omega
  rw [read, hsize]
  by_cases hn : n ≤ f.data.length
  · rw [Nat.min_eq_left hn]
    exact ⟨rfl, rfl⟩
  · rw [Nat.min_eq_right (by omega)]
    refine ⟨?_, ?_⟩
    · rw [List.take_of_length_le (by omega), List.take_of_length_le (by omega)]
    · rw [List.drop_of_length_le (by omega), List.drop_of_length_le (by omega)]

-- And any other is too short.
theorem read_short {n : Nat} (h : max 1 (f.cuts 0) < n) : (f.read n).1.length < n := by
  rw [read_length, size]
  omega

theorem read_ne_of_short {n : Nat} (h : max 1 (f.cuts 0) < n) {res : List β} (hres : res.length = n) :
    (f.read n).1 ≠ res := by
  intro heq
  have hshort := f.read_short h
  rw [heq, hres] at hshort
  exact Nat.lt_irrefl n hshort

-- Read `rem` elements in pieces of at most `room`, and drop them.
def drain (room : Nat) : Nat → Nat → Feed β → Option (Feed β)
  | _, 0, f => some f
  | 0, _ + 1, _ => none
  | fuel + 1, rem + 1, f =>
      match f.read (min (rem + 1) room) with
      | ([], _) => none
      | (a :: piece, f) => drain room fuel (rem + 1 - (a :: piece).length) f

-- The cuts make no difference to what is drained.
theorem drain_eq {room : Nat} (hroom : 0 < room) {fuel rem : Nat} (hfuel : rem ≤ fuel) (f : Feed β) :
    (drain room fuel rem f).map Feed.data =
      if rem ≤ f.data.length then some (f.data.drop rem) else none := by
  induction fuel generalizing rem f with
  | zero =>
      obtain rfl : rem = 0 := by omega
      simp [drain]
  | succ fuel ih =>
      cases rem with
      | zero => simp [drain]
      | succ rem =>
          have happend := f.read_append (min (rem + 1) room)
          have hlen := f.read_length (min (rem + 1) room)
          have hle := f.size_le (min (rem + 1) room)
          unfold drain
          split
          · rename_i next hread
            rw [hread] at happend hlen
            have hasked : 0 < min (rem + 1) room := by omega
            have hempty : f.data = [] := (f.read_eq_nil hasked).mp (by rw [hread])
            simp [hempty]
          · rename_i a piece next hread
            rw [hread] at happend hlen
            rw [ih (by simp only [List.length_cons]; omega), ← happend]
            dsimp only at hlen ⊢
            have hdrop : ((a :: piece) ++ next.data).drop (rem + 1) =
                next.data.drop (rem + 1 - (a :: piece).length) := by
              rw [List.drop_append, List.drop_of_length_le (by omega), List.nil_append]
            rw [hdrop, List.length_append]
            have hiff : rem + 1 - (a :: piece).length ≤ next.data.length ↔
                rem + 1 ≤ (a :: piece).length + next.data.length := by omega
            simp only [hiff]

-- From the place `total` on, with reads that fill up to `limit`, one ends at `q`.
inductive EndsAt (limit : Nat) : Nat → Feed β → Nat → Prop
  | here {total : Nat} {f : Feed β} (hsize : 0 < f.size (limit - total)) :
      EndsAt limit total f (total + f.size (limit - total))
  | later {total q : Nat} {f : Feed β} (hsize : 0 < f.size (limit - total))
      (h : EndsAt limit (total + f.size (limit - total)) (f.read (limit - total)).2 q) :
      EndsAt limit total f q

theorem EndsAt.bounds {limit total q : Nat} {f : Feed β} (h : EndsAt limit total f q) :
    total < q ∧ q ≤ limit := by
  induction h with
  | @here total f hsize =>
      have hle := f.size_le (limit - total)
      omega
  | later hsize _ ih => omega

theorem EndsAt.le_data {limit total q : Nat} {f : Feed β} (h : EndsAt limit total f q) :
    q ≤ total + f.data.length := by
  induction h with
  | @here total f hsize =>
      have hle := f.size_le_data (limit - total)
      omega
  | @later total q f hsize _ ih =>
      have hle := f.size_le_data (limit - total)
      rw [read, List.length_drop] at ih
      omega

-- No read ends before the first one does.
theorem EndsAt.first_le {limit total q : Nat} {f : Feed β} (h : EndsAt limit total f q) :
    total + f.size (limit - total) ≤ q := by
  cases h with
  | here _ => exact Nat.le_refl _
  | later _ h =>
      have hb := h.bounds
      omega

-- Fill a buffer up to `limit`, until what is in it says to stop. The stream
-- ends first just if the result is none.
def gather (stop : List β → Bool) (limit : Nat) : Nat → List β → Feed β → Option (List β × Feed β)
  | 0, got, f => some (got, f)
  | fuel + 1, got, f =>
      if got.length < limit then
        match f.read (limit - got.length) with
        | ([], _) => none
        | (a :: piece, f) =>
            if stop (got ++ a :: piece) then some (got ++ a :: piece, f)
            else gather stop limit fuel (got ++ a :: piece) f
      else some (got, f)

-- The first end of a read at which the buffer says to stop, or is full.
structure StopsAt (stop : List β → Bool) (limit total : Nat) (f : Feed β) (whole : List β) (q : Nat) :
    Prop where
  ends : EndsAt limit total f q
  stops : stop (whole.take q) = true ∨ q = limit
  first : ∀ r < q, EndsAt limit total f r → stop (whole.take r) = false

variable {f} {stop : List β → Bool} {limit total : Nat} {whole : List β} {q : Nat}

theorem StopsAt.unique {q' : Nat} (h : StopsAt stop limit total f whole q)
    (h' : StopsAt stop limit total f whole q') : q = q' := by
  have hle := h.ends.bounds
  have hle' := h'.ends.bounds
  rcases Nat.lt_trichotomy q q' with hlt | rfl | hlt
  · rcases h.stops with hstop | hfull
    · rw [h'.first q hlt h.ends] at hstop
      cases hstop
    · omega
  · rfl
  · rcases h'.stops with hstop | hfull
    · rw [h.first q' hlt h'.ends] at hstop
      cases hstop
    · omega

-- A first read that says to stop, or fills the buffer, is where it stops.
theorem stopsAt_here (hsize : 0 < f.size (limit - total))
    (hstops : stop (whole.take (total + f.size (limit - total))) = true ∨
      total + f.size (limit - total) = limit) :
    StopsAt stop limit total f whole (total + f.size (limit - total)) := by
  refine ⟨.here hsize, hstops, fun r hr hends => ?_⟩
  have hle := hends.first_le
  omega

theorem stopsAt_full (hlimit : 0 < limit) (hsize : f.size limit = limit) :
    StopsAt stop limit 0 f whole limit := by
  have hfull : 0 + f.size (limit - 0) = limit := by rw [Nat.sub_zero, hsize, Nat.zero_add]
  have hhere : StopsAt stop limit 0 f whole (0 + f.size (limit - 0)) :=
    stopsAt_here (by omega) (.inr hfull)
  rwa [hfull] at hhere

-- A read that neither says to stop nor fills the buffer can be left out.
theorem stopsAt_later (hsize : 0 < f.size (limit - total))
    (hgo : stop (whole.take (total + f.size (limit - total))) = false)
    (hroom : total + f.size (limit - total) < limit) :
    StopsAt stop limit total f whole q ↔
      StopsAt stop limit (total + f.size (limit - total)) (f.read (limit - total)).2 whole q := by
  constructor
  · rintro ⟨hends, hstops, hfirst⟩
    cases hends with
    | here _ =>
        rcases hstops with hstop | hfull
        · rw [hgo] at hstop
          cases hstop
        · omega
    | later _ hends => exact ⟨hends, hstops, fun r hr hr' => hfirst r hr (.later hsize hr')⟩
  · rintro ⟨hends, hstops, hfirst⟩
    refine ⟨.later hsize hends, hstops, fun r hr hr' => ?_⟩
    cases hr' with
    | here _ => exact hgo
    | later _ hr' => exact hfirst r hr hr'

-- What has been read and what has not are the whole, and the buffer's length
-- says where the one ends.
theorem split_whole {got data : List β} {n : Nat} (hgot : got.length = n) (hwhole : got ++ data = whole) :
    whole.take n = got ∧ whole.drop n = data := by
  rw [← hwhole, ← hgot]
  exact ⟨List.take_left, List.drop_left⟩

theorem gather_full {fuel : Nat} {got : List β} (h : limit ≤ got.length) :
    gather stop limit fuel got f = some (got, f) := by
  cases fuel with
  | zero => rfl
  | succ fuel => rw [gather, if_neg (Nat.not_lt.mpr h)]

theorem gather_spec {fuel : Nat} {got : List β} (hfuel : limit ≤ total + fuel) (hlimit : total < limit)
    (hgot : got.length = total) (hwhole : got ++ f.data = whole) :
    match gather stop limit fuel got f with
    | some (res, f') => ∃ q, StopsAt stop limit total f whole q ∧ res = whole.take q ∧ f'.data = whole.drop q
    | none => ∀ q, ¬StopsAt stop limit total f whole q := by
  induction fuel generalizing total got f with
  | zero => omega
  | succ fuel ih =>
      have happend := f.read_append (limit - total)
      have hlen := f.read_length (limit - total)
      unfold gather
      rw [hgot, if_pos hlimit]
      rcases hread : f.read (limit - total) with ⟨piece, next⟩
      rw [hread] at happend hlen
      dsimp only at happend hlen ⊢
      cases piece with
      | nil =>
          dsimp only
          rintro q ⟨hends, _, _⟩
          cases hends <;> simp only [List.length_nil] at hlen <;> omega
      | cons a piece =>
          have hsize : 0 < f.size (limit - total) := by
            simp only [List.length_cons] at hlen
            omega
          have hnext : (f.read (limit - total)).2 = next := by rw [hread]
          have hwhole' : (got ++ a :: piece) ++ next.data = whole := by
            rw [List.append_assoc, happend, hwhole]
          have hgot' : (got ++ a :: piece).length = total + f.size (limit - total) := by
            rw [List.length_append, hgot, hlen]
          obtain ⟨htake, hdrop⟩ := split_whole hgot' hwhole'
          dsimp only
          by_cases hstop : stop (got ++ a :: piece) = true
          · rw [if_pos hstop]
            exact ⟨_, stopsAt_here hsize (.inl (htake ▸ hstop)), htake.symm, hdrop.symm⟩
          · rw [if_neg hstop]
            by_cases hroom : total + f.size (limit - total) < limit
            · have hgo : stop (whole.take (total + f.size (limit - total))) = false := by
                rw [htake]
                exact Bool.eq_false_iff.mpr hstop
              have hrest := ih (by omega) hroom hgot' hwhole'
              simp only [stopsAt_later hsize hgo hroom, hnext]
              exact hrest
            · have hle := f.size_le (limit - total)
              have hfull : total + f.size (limit - total) = limit := by omega
              rw [gather_full (by omega)]
              exact ⟨_, stopsAt_here hsize (.inr hfull), htake.symm, hdrop.symm⟩

end Feed
