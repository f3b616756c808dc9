import Mathlib.Data.List.Basic
import Mathlib.Data.List.Forall2

-- Messages with free pieces: masking them at given spots, and codes whose free
-- pieces can be told from the octets outside them.
namespace Masking

variable {α : Type*}

-- A stretch of a message. What is free may differ from one message to the next.
structure Piece (α : Type*) where
  free : Bool
  octets : List α

def flat (fields : List (Piece α)) : List α := fields.flatMap Piece.octets

def Piece.pattern (field : Piece α) : List (Option α) :=
  if field.free then List.replicate field.octets.length none else field.octets.map some

-- The message with nothing where it is free.
def pattern (fields : List (Piece α)) : List (Option α) := fields.flatMap Piece.pattern

-- Where the free fields of a message are, and how long, if it begins at `start`.
def spots : Nat → List (Piece α) → List (Nat × Nat)
  | _, [] => []
  | start, field :: fields =>
      if field.free then (start, field.octets.length) :: spots (start + field.octets.length) fields
      else spots (start + field.octets.length) fields

def Covers (spot : Nat × Nat) (i : Nat) : Prop := spot.1 ≤ i ∧ i < spot.1 + spot.2

instance (spot : Nat × Nat) (i : Nat) : Decidable (Covers spot i) := inferInstanceAs (Decidable (_ ∧ _))

-- `text[o:o+l] = zero * l`
def blank (zero : α) (text : List α) (spot : Nat × Nat) : List α :=
  text.take spot.1 ++ List.replicate spot.2 zero ++ text.drop (spot.1 + spot.2)

@[simp] theorem flat_nil : flat ([] : List (Piece α)) = [] := rfl

@[simp] theorem flat_cons (field : Piece α) (fields : List (Piece α)) :
    flat (field :: fields) = field.octets ++ flat fields := rfl

@[simp] theorem flat_append (fields more : List (Piece α)) :
    flat (fields ++ more) = flat fields ++ flat more :=
  List.flatMap_append

theorem flat_flatMap {ι : Type*} (xs : List ι) (code : ι → List (Piece α)) :
    flat (xs.flatMap code) = xs.flatMap fun x => flat (code x) := List.flatMap_assoc

@[simp] theorem pattern_nil : pattern ([] : List (Piece α)) = [] := rfl

@[simp] theorem pattern_free (octets : List α) (fields : List (Piece α)) :
    pattern (⟨true, octets⟩ :: fields) = List.replicate octets.length none ++ pattern fields := rfl

@[simp] theorem pattern_fixed (octets : List α) (fields : List (Piece α)) :
    pattern (⟨false, octets⟩ :: fields) = octets.map some ++ pattern fields := rfl

@[simp] theorem pattern_append (fields more : List (Piece α)) :
    pattern (fields ++ more) = pattern fields ++ pattern more := List.flatMap_append

theorem pattern_flatMap {ι : Type*} (xs : List ι) (code : ι → List (Piece α)) :
    pattern (xs.flatMap code) = xs.flatMap fun x => pattern (code x) := List.flatMap_assoc

-- Of words that are not empty, a row is as long as it has words at least.
theorem length_le_flatMap {ι β : Type*} {code : ι → List β} (hne : ∀ x, 0 < (code x).length) (xs : List ι) :
    xs.length ≤ (xs.flatMap code).length := by
  induction xs with
  | nil => exact Nat.le_refl 0
  | cons x xs ih =>
      have hx := hne x
      rw [List.flatMap_cons, List.length_append, List.length_cons]
      omega

@[simp] theorem Piece.pattern_length (field : Piece α) : field.pattern.length = field.octets.length := by
  unfold Piece.pattern
  split <;> simp

@[simp] theorem pattern_length (fields : List (Piece α)) :
    (pattern fields).length = (flat fields).length := by
  induction fields with
  | nil => rfl
  | cons field fields ih =>
      show (field.pattern ++ pattern fields).length = (field.octets ++ flat fields).length
      rw [List.length_append, List.length_append, field.pattern_length, ih]

@[simp] theorem spots_nil (start : Nat) : spots start ([] : List (Piece α)) = [] := rfl

@[simp] theorem spots_free (start : Nat) (octets : List α) (fields : List (Piece α)) :
    spots start (⟨true, octets⟩ :: fields) =
      (start, octets.length) :: spots (start + octets.length) fields := rfl

@[simp] theorem spots_fixed (start : Nat) (octets : List α) (fields : List (Piece α)) :
    spots start (⟨false, octets⟩ :: fields) = spots (start + octets.length) fields := rfl

theorem spots_append (start : Nat) (fields more : List (Piece α)) :
    spots start (fields ++ more) = spots start fields ++ spots (start + (flat fields).length) more := by
  induction fields generalizing start with
  | nil => rfl
  | cons field fields ih =>
      obtain ⟨free, octets⟩ := field
      have hlen : start + (octets ++ flat fields).length = start + octets.length + (flat fields).length := by
        rw [List.length_append]
        omega
      cases free with
      | true =>
          rw [List.cons_append, spots_free, spots_free, flat_cons, hlen, ih, List.cons_append]
      | false =>
          rw [List.cons_append, spots_fixed, spots_fixed, flat_cons, hlen, ih]

theorem spots_range {start : Nat} {fields : List (Piece α)} {spot : Nat × Nat}
    (h : spot ∈ spots start fields) :
    start ≤ spot.1 ∧ spot.1 + spot.2 ≤ start + (flat fields).length := by
  induction fields generalizing start with
  | nil => cases h
  | cons field fields ih =>
      obtain ⟨free, octets⟩ := field
      rw [flat_cons, List.length_append]
      dsimp only
      have hrest : spot ∈ spots (start + octets.length) fields →
          start ≤ spot.1 ∧ spot.1 + spot.2 ≤ start + (octets.length + (flat fields).length) := by
        intro hmem
        have hrange := ih hmem
        omega
      cases free with
      | true =>
          rcases List.mem_cons.mp h with rfl | hmem
          · dsimp only
            omega
          · exact hrest hmem
      | false => exact hrest h

theorem blank_length {zero : α} {text : List α} {spot : Nat × Nat} (h : spot.1 + spot.2 ≤ text.length) :
    (blank zero text spot).length = text.length := by
  unfold blank
  simp only [List.length_append, List.length_take, List.length_replicate, List.length_drop]
  omega

theorem blank_getElem? {zero : α} {text : List α} {spot : Nat × Nat} (h : spot.1 + spot.2 ≤ text.length)
    (i : Nat) : (blank zero text spot)[i]? = if Covers spot i then some zero else text[i]? := by
  have htake : (text.take spot.1).length = spot.1 := List.length_take_of_le (by omega)
  unfold blank
  rw [List.append_assoc, List.getElem?_append, htake]
  by_cases hbefore : i < spot.1
  · have hno : ¬Covers spot i := fun hc => by
      have := hc.1
      omega
    rw [if_pos hbefore, if_neg hno, List.getElem?_take_of_lt hbefore]
  · rw [if_neg hbefore, List.getElem?_append, List.length_replicate]
    by_cases hin : i - spot.1 < spot.2
    · have hc : Covers spot i := ⟨by omega, by omega⟩
      rw [if_pos hin, if_pos hc, List.getElem?_replicate, if_pos hin]
    · have hno : ¬Covers spot i := fun hc => by
        have := hc.2
        omega
      rw [if_neg hin, if_neg hno, List.getElem?_drop]
      congr 1
      omega

-- After blanking spots that all fit, just what one of them covers is blank.
theorem foldl_blank_getElem? {zero : α} {text : List α} {list : List (Nat × Nat)}
    (h : ∀ spot ∈ list, spot.1 + spot.2 ≤ text.length) (i : Nat) :
    (list.foldl (blank zero) text)[i]? = if ∃ spot ∈ list, Covers spot i then some zero else text[i]? := by
  induction list generalizing text with
  | nil => simp
  | cons spot list ih =>
      rw [List.forall_mem_cons] at h
      have hlen := @blank_length _ zero text spot h.1
      rw [List.foldl_cons, ih (by rw [hlen]; exact h.2), blank_getElem? h.1]
      by_cases hlater : ∃ spot ∈ list, Covers spot i
      · rw [if_pos hlater, if_pos (List.exists_mem_cons_of_exists hlater)]
      · rw [if_neg hlater]
        by_cases hnow : Covers spot i
        · rw [if_pos hnow, if_pos ⟨spot, List.mem_cons_self, hnow⟩]
        · rw [if_neg hnow, if_neg]
          rintro ⟨other, hmem, hc⟩
          rcases List.mem_cons.mp hmem with rfl | hmem
          · exact hnow hc
          · exact hlater ⟨other, hmem, hc⟩

-- In what order they are blanked does not matter.
theorem foldl_blank_congr {zero : α} {text : List α} {list list' : List (Nat × Nat)}
    (hsame : ∀ spot, spot ∈ list ↔ spot ∈ list') (h : ∀ spot ∈ list, spot.1 + spot.2 ≤ text.length) :
    list.foldl (blank zero) text = list'.foldl (blank zero) text := by
  apply List.ext_getElem?
  intro i
  rw [foldl_blank_getElem? h, foldl_blank_getElem? fun spot hmem => h spot ((hsame spot).mpr hmem)]
  simp only [hsame]

theorem getD_map_some (zero : α) (octets : List α) : (octets.map some).map (·.getD zero) = octets := by
  rw [List.map_map]
  exact List.map_id octets

-- Blanking a message at its own spots leaves its pattern.
theorem foldl_blank_spots (zero : α) (before : List α) (fields : List (Piece α)) :
    (spots before.length fields).foldl (blank zero) (before ++ flat fields) =
      before ++ (pattern fields).map (·.getD zero) := by
  induction fields generalizing before with
  | nil => rfl
  | cons field fields ih =>
      obtain ⟨free, octets⟩ := field
      cases free with
      | true =>
          have hblank : blank zero (before ++ (octets ++ flat fields)) (before.length, octets.length) =
              (before ++ List.replicate octets.length zero) ++ flat fields := by
            unfold blank
            dsimp only
            rw [List.take_left, ← List.append_assoc before, List.drop_left' (by rw [List.length_append])]
          have hlen : (before ++ List.replicate octets.length zero).length =
              before.length + octets.length := by
            rw [List.length_append, List.length_replicate]
          rw [spots_free, List.foldl_cons, flat_cons, hblank, ← hlen, ih, pattern_free, List.map_append,
            List.map_replicate, List.append_assoc]
          rfl
      | false =>
          rw [spots_fixed, flat_cons, ← List.append_assoc, ← List.length_append, ih, pattern_fixed,
            List.map_append, getD_map_some, List.append_assoc]

-- The pattern of a message is the message outside its spots.
theorem pattern_getElem? (start : Nat) (fields : List (Piece α)) (i : Nat) :
    (pattern fields)[i]? = if ∃ spot ∈ spots start fields, Covers spot (start + i) then some none
      else (flat fields)[i]?.map some := by
  induction fields generalizing start i with
  | nil => simp
  | cons field fields ih =>
      obtain ⟨free, octets⟩ := field
      by_cases hi : i < octets.length
      · have hlater : ¬∃ spot ∈ spots (start + octets.length) fields, Covers spot (start + i) := by
          rintro ⟨spot, hmem, hc⟩
          have hrange := (spots_range hmem).1
          have hle := hc.1
          omega
        cases free with
        | true =>
            have hnow : Covers (start, octets.length) (start + i) :=
              ⟨Nat.le_add_right _ _, Nat.add_lt_add_left hi start⟩
            rw [spots_free, pattern_free, if_pos ⟨_, List.mem_cons_self, hnow⟩,
              List.getElem?_append_left (by rwa [List.length_replicate]), List.getElem?_replicate, if_pos hi]
        | false =>
            rw [spots_fixed, pattern_fixed, if_neg hlater, flat_cons,
              List.getElem?_append_left (by rwa [List.length_map]), List.getElem?_append_left hi,
              List.getElem?_map]
      · have hle := Nat.not_lt.mp hi
        have hrest := ih (start + octets.length) (i - octets.length)
        rw [Nat.add_assoc, Nat.add_sub_cancel' hle] at hrest
        cases free with
        | true =>
            have hpast : ¬Covers (start, octets.length) (start + i) := fun hc => by
              have hlt : start + i < start + octets.length := hc.2
              omega
            rw [spots_free, pattern_free, flat_cons,
              List.getElem?_append_right (by rwa [List.length_replicate]), List.length_replicate,
              List.getElem?_append_right hle, hrest]
            simp only [List.exists_mem_cons_iff, hpast, false_or]
        | false =>
            rw [spots_fixed, pattern_fixed, flat_cons, List.getElem?_append_right (by rwa [List.length_map]),
              List.length_map, List.getElem?_append_right hle, hrest]

-- Two places agree unless both are fixed and differ.
def Agree (x y : Option α) : Prop := ∀ a b, x = some a → y = some b → a = b

def Agrees (p q : List (Option α)) : Prop := List.Forall₂ Agree p q

theorem agree_some {a b : α} : Agree (some a) (some b) ↔ a = b := by
  constructor
  · intro h
    exact h a b rfl rfl
  · rintro rfl x y hx hy
    exact Option.some.inj (hx.symm.trans hy)

-- Blanked alike, two patterns agree.
theorem agrees_of_blanked {zero : α} {p q : List (Option α)} (h : p.map (·.getD zero) = q.map (·.getD zero)) :
    Agrees p q := by
  induction p generalizing q with
  | nil =>
      rw [List.map_nil, eq_comm, List.map_eq_nil_iff] at h
      rw [h]
      exact .nil
  | cons x p ih =>
      cases q with
      | nil => cases h
      | cons y q =>
          rw [List.map_cons, List.map_cons] at h
          obtain ⟨hxy, hpq⟩ := List.cons.inj h
          refine .cons ?_ (ih hpq)
          rintro a b rfl rfl
          exact hxy

theorem agrees_iff_getElem? {p q : List (Option α)} :
    Agrees p q ↔ p.length = q.length ∧
      ∀ (i : Nat) (a b : α), p[i]? = some (some a) → q[i]? = some (some b) → a = b := by
  unfold Agrees
  rw [List.forall₂_iff_get]
  refine and_congr_right fun hlen => ?_
  constructor
  · intro h i a b ha hb
    obtain ⟨hi, hp⟩ := List.getElem?_eq_some_iff.mp ha
    obtain ⟨hi', hq⟩ := List.getElem?_eq_some_iff.mp hb
    exact h i hi hi' a b hp hq
  · intro h i hi hi' a b ha hb
    exact h i a b (List.getElem?_eq_some_iff.mpr ⟨hi, ha⟩) (List.getElem?_eq_some_iff.mpr ⟨hi', hb⟩)

theorem pattern_fixed_iff (fields : List (Piece α)) (i : Nat) (a : α) :
    (pattern fields)[i]? = some (some a) ↔
      (¬∃ spot ∈ spots 0 fields, Covers spot i) ∧ (flat fields)[i]? = some a := by
  have h := pattern_getElem? 0 fields i
  rw [Nat.zero_add] at h
  rw [h]
  by_cases hc : ∃ spot ∈ spots 0 fields, Covers spot i
  · rw [if_pos hc]
    exact iff_of_false (by simp) fun hand => hand.1 hc
  · rw [if_neg hc, Option.map_eq_some_iff]
    simp [hc]

-- To agree is to be as long and the same outside the spots of either.
theorem agrees_iff (fields more : List (Piece α)) :
    Agrees (pattern fields) (pattern more) ↔ (flat fields).length = (flat more).length ∧
      ∀ i, (¬∃ spot ∈ spots 0 fields, Covers spot i) → (¬∃ spot ∈ spots 0 more, Covers spot i) →
        (flat fields)[i]? = (flat more)[i]? := by
  rw [agrees_iff_getElem?, pattern_length, pattern_length]
  refine and_congr_right fun hlen => ?_
  simp only [pattern_fixed_iff]
  constructor
  · intro h i hno hno'
    by_cases hi : i < (flat fields).length
    · have ha := List.getElem?_eq_getElem hi
      have hb := List.getElem?_eq_getElem (hlen ▸ hi)
      rw [ha, hb, h i _ _ ⟨hno, ha⟩ ⟨hno', hb⟩]
    · rw [List.getElem?_eq_none (Nat.not_lt.mp hi), List.getElem?_eq_none (hlen ▸ Nat.not_lt.mp hi)]
  · rintro h i a b ⟨hno, ha⟩ ⟨hno', hb⟩
    rw [h i hno hno', hb] at ha
    exact (Option.some.inj ha).symm

theorem agrees_fixed {xs ys : List α} {u v : List (Option α)} (hlen : xs.length = ys.length)
    (h : Agrees (xs.map some ++ u) (ys.map some ++ v)) : xs = ys ∧ Agrees u v := by
  induction xs generalizing ys with
  | nil =>
      obtain rfl := List.eq_nil_of_length_eq_zero hlen.symm
      exact ⟨rfl, h⟩
  | cons x xs ih =>
      cases ys with
      | nil => cases hlen
      | cons y ys =>
          rw [List.map_cons, List.map_cons, List.cons_append, List.cons_append] at h
          obtain ⟨hxy, hrest⟩ := List.forall₂_cons.mp h
          obtain ⟨rfl, huv⟩ := ih (Nat.succ.inj hlen) hrest
          rw [agree_some.mp hxy]
          exact ⟨rfl, huv⟩

theorem agrees_free {n : Nat} {u v : List (Option α)}
    (h : Agrees (List.replicate n none ++ u) (List.replicate n none ++ v)) : Agrees u v := by
  induction n with
  | zero => exact h
  | succ n ih =>
      rw [List.replicate_succ, List.cons_append, List.cons_append] at h
      exact ih (List.forall₂_cons.mp h).2

-- A code whose words can be told apart by what is fixed in them, whatever follows.
def Rigid {ι : Type*} (valid : ι → Prop) (code : ι → List (Option α)) : Prop :=
  ∀ x y u v, valid x → valid y → Agrees (code x ++ u) (code y ++ v) → code x = code y ∧ Agrees u v

-- So can rows of such words, if they are as long.
theorem Rigid.flatMap {ι : Type*} {valid : ι → Prop} {code : ι → List (Option α)} (hcode : Rigid valid code)
    (hne : ∀ x, code x ≠ []) {xs ys : List ι} (hxs : ∀ x ∈ xs, valid x) (hys : ∀ y ∈ ys, valid y)
    {u v : List (Option α)} (hlen : (xs.flatMap code).length = (ys.flatMap code).length)
    (h : Agrees (xs.flatMap code ++ u) (ys.flatMap code ++ v)) :
    xs.flatMap code = ys.flatMap code ∧ Agrees u v := by
  have hpos : ∀ x, 0 < (code x).length := fun x => List.length_pos_of_ne_nil (hne x)
  induction xs generalizing ys with
  | nil =>
      cases ys with
      | nil => exact ⟨rfl, h⟩
      | cons y ys =>
          have := hpos y
          rw [List.flatMap_cons, List.length_append, List.flatMap_nil, List.length_nil] at hlen
          omega
  | cons x xs ih =>
      cases ys with
      | nil =>
          have := hpos x
          rw [List.flatMap_cons, List.length_append, List.flatMap_nil, List.length_nil] at hlen
          omega
      | cons y ys =>
          rw [List.forall_mem_cons] at hxs hys
          rw [List.flatMap_cons, List.flatMap_cons, List.append_assoc, List.append_assoc] at h
          obtain ⟨hword, hrest⟩ := hcode x y _ _ hxs.1 hys.1 h
          have hlen' : (xs.flatMap code).length = (ys.flatMap code).length := by
            rw [List.flatMap_cons, List.flatMap_cons, List.length_append, List.length_append, hword] at hlen
            omega
          obtain ⟨hrow, huv⟩ := ih hxs.2 hys.2 hlen' hrest
          rw [List.flatMap_cons, List.flatMap_cons, hword, hrow]
          exact ⟨rfl, huv⟩

-- The field with what is free in it blanked.
def Piece.blanked (zero : α) (field : Piece α) : Piece α :=
  if field.free then ⟨true, List.replicate field.octets.length zero⟩ else field

@[simp] theorem blanked_free (zero : α) (octets : List α) :
    Piece.blanked zero ⟨true, octets⟩ = ⟨true, List.replicate octets.length zero⟩ := rfl

@[simp] theorem blanked_fixed (zero : α) (octets : List α) :
    Piece.blanked zero ⟨false, octets⟩ = ⟨false, octets⟩ := rfl

@[simp] theorem pattern_blanked (zero : α) (fields : List (Piece α)) :
    pattern (fields.map (Piece.blanked zero)) = pattern fields := by
  induction fields with
  | nil => rfl
  | cons field fields ih =>
      obtain ⟨free, octets⟩ := field
      cases free with
      | true => rw [List.map_cons, blanked_free, pattern_free, pattern_free, List.length_replicate, ih]
      | false => rw [List.map_cons, blanked_fixed, pattern_fixed, pattern_fixed, ih]

theorem flat_blanked (zero : α) (fields : List (Piece α)) :
    flat (fields.map (Piece.blanked zero)) = (pattern fields).map (·.getD zero) := by
  induction fields with
  | nil => rfl
  | cons field fields ih =>
      obtain ⟨free, octets⟩ := field
      cases free with
      | true =>
          rw [List.map_cons, blanked_free, flat_cons, pattern_free, List.map_append, List.map_replicate, ih]
          rfl
      | false =>
          rw [List.map_cons, blanked_fixed, flat_cons, pattern_fixed, List.map_append, getD_map_some, ih]

@[simp] theorem flat_blanked_length (zero : α) (fields : List (Piece α)) :
    (flat (fields.map (Piece.blanked zero))).length = (flat fields).length := by
  rw [flat_blanked, List.length_map, pattern_length]

end Masking
