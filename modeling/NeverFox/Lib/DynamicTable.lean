import Mathlib.Algebra.Order.Ring.Nat
import Mathlib.Data.List.Infix

namespace DynamicTable

-- A header compression with a table of recent entries: newest first, within a
-- capacity, each entry of its own size. Indices count from one, through a fixed
-- list first and then through the table.
variable {ν ω : Type*} (size : ν × ω → Nat) (fixed : List (ν × ω))

-- The entries in front for which there is room.
def fit : Nat → List (ν × ω) → List (ν × ω)
  | _, [] => []
  | room, e :: es => if size e ≤ room then e :: fit (room - size e) es else []

variable {size}

theorem fit_sum_le (room : Nat) (es : List (ν × ω)) : ((fit size room es).map size).sum ≤ room := by
  induction es generalizing room with
  | nil => exact Nat.zero_le _
  | cons e es ih =>
      unfold fit
      split
      · have hrest := ih (room - size e)
        rw [List.map_cons, List.sum_cons]
        omega
      · exact Nat.zero_le _

theorem fit_isPrefix (room : Nat) (es : List (ν × ω)) : fit size room es <+: es := by
  induction es generalizing room with
  | nil => exact List.prefix_rfl
  | cons e es ih =>
      unfold fit
      split
      · exact List.cons_prefix_cons.mpr ⟨rfl, ih _⟩
      · exact List.nil_prefix

-- More room, and more entries behind, only add to what fits.
theorem fit_mono {room room' : Nat} (hroom : room ≤ room') {es es' : List (ν × ω)} (h : es <+: es') :
    fit size room es <+: fit size room' es' := by
  induction es generalizing room room' es' with
  | nil => exact List.nil_prefix
  | cons e es ih =>
      cases es' with
      | nil => cases List.prefix_nil.mp h
      | cons e' es' =>
          obtain ⟨rfl, hrest⟩ := List.cons_prefix_cons.mp h
          by_cases hfits : size e ≤ room
          · rw [fit, fit, if_pos hfits, if_pos (Nat.le_trans hfits hroom)]
            exact List.cons_prefix_cons.mpr ⟨rfl, ih (by omega) hrest⟩
          · rw [fit, if_neg hfits]
            exact List.nil_prefix

-- What is within the room fits whole.
theorem fit_eq_self {room : Nat} {es : List (ν × ω)} (h : (es.map size).sum ≤ room) :
    fit size room es = es := by
  induction es generalizing room with
  | nil => rfl
  | cons e es ih =>
      rw [List.map_cons, List.sum_cons] at h
      rw [fit, if_pos (by omega), ih (by omega)]

variable (size)

structure Table where
  capacity : Nat
  entries : List (ν × ω)
  fits : (entries.map size).sum ≤ capacity

-- A name is written out, or that of an entry.
inductive Name (ν : Type*)
  | index (i : Nat)
  | text (name : ν)

-- How a field is represented: as an entry, or with a value of its own, and then
-- inserted or not.
inductive Rep (ν ω : Type*)
  | indexed (i : Nat)
  | insert (name : Name ν) (value : ω)
  | plain (name : Name ν) (value : ω)

variable {size}

namespace Table

def empty (capacity : Nat) : Table size := ⟨capacity, [], Nat.zero_le _⟩

-- Entries go from the end until the new one fits, or until none is left.
def insert (t : Table size) (e : ν × ω) : Table size :=
  ⟨t.capacity, fit size t.capacity (e :: t.entries), fit_sum_le _ _⟩

def resize (t : Table size) (capacity : Nat) : Table size :=
  ⟨capacity, fit size capacity t.entries, fit_sum_le _ _⟩

def lookup (t : Table size) : Nat → Option (ν × ω)
  | 0 => none
  | i + 1 => (fixed ++ t.entries)[i]?

end Table

def Name.resolve (t : Table size) : Name ν → Option ν
  | .index i => (t.lookup fixed i).map Prod.fst
  | .text name => some name

def Name.refersTo : Name ν → Option Nat
  | .index i => some i
  | .text _ => none

namespace Rep

def field (t : Table size) : Rep ν ω → Option (ν × ω)
  | .indexed i => t.lookup fixed i
  | .insert name value | .plain name value => (name.resolve fixed t).map (·, value)

def after (t : Table size) (f : ν × ω) : Rep ν ω → Table size
  | .insert _ _ => t.insert f
  | _ => t

def refersTo : Rep ν ω → Option Nat
  | .indexed i => some i
  | .insert name _ | .plain name _ => name.refersTo

end Rep

-- Read a block of representations: the fields, and the table behind them.
def Table.read (t : Table size) : List (Rep ν ω) → Option (Table size × List (ν × ω))
  | [] => some (t, [])
  | rep :: reps => (rep.field fixed t).bind fun f =>
      (Table.read (rep.after t f) reps).map fun out => (out.1, f :: out.2)

-- Every index in the block is to an entry that the table has when its turn comes.
def Table.Reaches (t : Table size) : List (Rep ν ω) → List (ν × ω) → Prop
  | rep :: reps, f :: fields =>
      (∀ i, rep.refersTo = some i → i ≤ fixed.length + t.entries.length) ∧
        Table.Reaches (rep.after t f) reps fields
  | _, _ => True

variable {fixed}

theorem Table.read_cons_eq_some {t t' : Table size} {rep : Rep ν ω} {reps : List (Rep ν ω)}
    {fields : List (ν × ω)} (h : t.read fixed (rep :: reps) = some (t', fields)) :
    ∃ f rest, rep.field fixed t = some f ∧ (rep.after t f).read fixed reps = some (t', rest) ∧
      fields = f :: rest := by
  obtain ⟨f, hf, hrest⟩ := Option.bind_eq_some_iff.mp h
  obtain ⟨⟨_, rest⟩, hread, he⟩ := Option.map_eq_some_iff.mp hrest
  obtain ⟨rfl, rfl⟩ := Prod.mk.inj he
  exact ⟨f, rest, hf, hread, rfl⟩

theorem Table.read_capacity {t t' : Table size} {reps : List (Rep ν ω)} {fields : List (ν × ω)}
    (h : t.read fixed reps = some (t', fields)) : t'.capacity = t.capacity := by
  induction reps generalizing t fields with
  | nil =>
      cases h
      rfl
  | cons rep reps ih =>
      obtain ⟨f, rest, _, hread, _⟩ := read_cons_eq_some h
      rw [ih hread]
      cases rep <;> rfl

-- Two tables into which the same entries went, whatever their capacities were:
-- each has the newest of them.
def Akin (t u : Table size) : Prop := ∃ history, t.entries <+: history ∧ u.entries <+: history

namespace Akin

variable {t u : Table size}

theorem insert (h : Akin t u) (e : ν × ω) : Akin (t.insert e) (u.insert e) := by
  obtain ⟨history, ht, hu⟩ := h
  refine ⟨e :: history, ?_, ?_⟩
  · exact (fit_isPrefix _ _).trans (List.cons_prefix_cons.mpr ⟨rfl, ht⟩)
  · exact (fit_isPrefix _ _).trans (List.cons_prefix_cons.mpr ⟨rfl, hu⟩)

theorem resize (h : Akin t u) (capacity : Nat) : Akin t (u.resize capacity) := by
  obtain ⟨history, ht, hu⟩ := h
  exact ⟨history, ht, (fit_isPrefix _ _).trans hu⟩

theorem after (h : Akin t u) (rep : Rep ν ω) (f : ν × ω) : Akin (rep.after t f) (rep.after u f) := by
  cases rep with
  | insert name value => exact h.insert f
  | indexed i | plain name value => exact h

-- What the one table finds the other finds too, or it finds nothing.
theorem lookup (h : Akin t u) {i : Nat} {f : ν × ω} (hi : t.lookup fixed i = some f) :
    u.lookup fixed i = if i ≤ fixed.length + u.entries.length then some f else none := by
  obtain ⟨history, ht, hu⟩ := h
  cases i with
  | zero => cases hi
  | succ i =>
      have hfound : (fixed ++ t.entries)[i]? = some f := hi
      have hwhole : (fixed ++ history)[i]? = some f := by
        obtain ⟨hlt, rfl⟩ := List.getElem?_eq_some_iff.mp hfound
        exact List.prefix_iff_getElem?.mp ((List.prefix_append_right_inj fixed).mpr ht) i hlt
      have hbelow : fixed ++ u.entries <+: fixed ++ history := (List.prefix_append_right_inj fixed).mpr hu
      change (fixed ++ u.entries)[i]? = _
      split
      · rename_i hle
        have hlt : i < (fixed ++ u.entries).length := by
          rw [List.length_append]
          omega
        rw [List.getElem?_eq_getElem hlt, ← List.prefix_iff_getElem?.mp hbelow i hlt, hwhole]
      · rename_i hle
        rw [List.getElem?_eq_none]
        rw [List.length_append]
        omega

theorem resolve (h : Akin t u) {name : Name ν} {n : ν} (hn : name.resolve fixed t = some n) :
    name.resolve fixed u = if ∀ i, name.refersTo = some i → i ≤ fixed.length + u.entries.length
      then some n else none := by
  cases name with
  | text text =>
      rw [if_pos (by simp [Name.refersTo])]
      exact hn
  | index i =>
      obtain ⟨f, hf, rfl⟩ := Option.map_eq_some_iff.mp hn
      simp only [Name.resolve, h.lookup hf, Name.refersTo, Option.some.injEq, forall_eq']
      split <;> rfl

-- So a representation of one of them has the same field in the other, or none.
theorem field (h : Akin t u) {rep : Rep ν ω} {f : ν × ω} (hf : rep.field fixed t = some f) :
    rep.field fixed u = if ∀ i, rep.refersTo = some i → i ≤ fixed.length + u.entries.length
      then some f else none := by
  have hvalue : ∀ (name : Name ν) (value : ω), (name.resolve fixed t).map (·, value) = some f →
      (name.resolve fixed u).map (·, value) = if ∀ i, name.refersTo = some i →
        i ≤ fixed.length + u.entries.length then some f else none := by
    intro name value hname
    obtain ⟨n, hn, rfl⟩ := Option.map_eq_some_iff.mp hname
    rw [h.resolve hn]
    split <;> rfl
  cases rep with
  | indexed i =>
      simp only [Rep.field, Rep.refersTo, Option.some.injEq, forall_eq']
      exact h.lookup hf
  | insert name value | plain name value => exact hvalue name value hf

-- A block that was written with one table is read with the other just if its
-- indices reach no further than that one, and then as it was meant.
theorem read (h : Akin t u) {t' : Table size} {reps : List (Rep ν ω)} {fields : List (ν × ω)}
    (hread : t.read fixed reps = some (t', fields)) :
    (u.Reaches fixed reps fields ∧ ∃ u', u.read fixed reps = some (u', fields) ∧ Akin t' u') ∨
      (¬u.Reaches fixed reps fields ∧ u.read fixed reps = none) := by
  induction reps generalizing t u fields with
  | nil =>
      cases hread
      exact .inl ⟨trivial, u, rfl, h⟩
  | cons rep reps ih =>
      obtain ⟨f, rest, hf, hrest, rfl⟩ := Table.read_cons_eq_some hread
      have hu := h.field hf
      by_cases hreach : ∀ i, rep.refersTo = some i → i ≤ fixed.length + u.entries.length
      · rw [if_pos hreach] at hu
        simp only [Table.Reaches, Table.read, hu, Option.bind_some]
        rcases ih (h.after rep f) hrest with ⟨hrest, u', hread', hakin⟩ | ⟨hrest, hnone⟩
        · exact .inl ⟨⟨hreach, hrest⟩, u', by rw [hread']; rfl, hakin⟩
        · exact .inr ⟨fun hall => hrest hall.2, by rw [hnone]; rfl⟩
      · rw [if_neg hreach] at hu
        refine .inr ⟨fun hall => hreach hall.1, ?_⟩
        simp only [Table.read, hu, Option.bind_none]

end Akin

-- A table that has all the entries of another one, and the room for them.
structure Ahead (t u : Table size) : Prop where
  entries : t.entries <+: u.entries
  capacity : t.capacity ≤ u.capacity

namespace Ahead

variable {t u : Table size}

theorem akin (h : Ahead t u) : Akin t u := ⟨u.entries, h.entries, List.prefix_rfl⟩

theorem resize (h : Ahead t u) {capacity : Nat} (hroom : t.capacity ≤ capacity) :
    Ahead t (u.resize capacity) := by
  refine ⟨?_, hroom⟩
  have hfit : fit size t.capacity t.entries <+: fit size capacity u.entries := fit_mono hroom h.entries
  rwa [fit_eq_self t.fits] at hfit

theorem after (h : Ahead t u) (rep : Rep ν ω) (f : ν × ω) : Ahead (rep.after t f) (rep.after u f) := by
  cases rep with
  | insert name value =>
      exact ⟨fit_mono h.capacity (List.cons_prefix_cons.mpr ⟨rfl, h.entries⟩), h.capacity⟩
  | indexed i | plain name value => exact h

-- An index that the smaller table knows is within the larger.
theorem index_le (h : Ahead t u) {rep : Rep ν ω} {f : ν × ω} (hf : rep.field fixed t = some f) {i : Nat}
    (hi : rep.refersTo = some i) : i ≤ fixed.length + u.entries.length := by
  have hlookup : ∀ {e}, t.lookup fixed i = some e → i ≤ fixed.length + u.entries.length := by
    intro e he
    cases i with
    | zero => exact Nat.zero_le _
    | succ i =>
        have hfound : (fixed ++ t.entries)[i]? = some e := he
        obtain ⟨hlt, _⟩ := List.getElem?_eq_some_iff.mp hfound
        have hle := h.entries.length_le
        rw [List.length_append] at hlt
        omega
  have hname : ∀ {name : Name ν} {value : ω}, (name.resolve fixed t).map (·, value) = some f →
      name.refersTo = some i → i ≤ fixed.length + u.entries.length := by
    intro name value hmap hindex
    obtain ⟨n, hn, _⟩ := Option.map_eq_some_iff.mp hmap
    cases name with
    | text text => cases hindex
    | index j =>
        cases hindex
        obtain ⟨e, he, _⟩ := Option.map_eq_some_iff.mp hn
        exact hlookup he
  cases rep with
  | indexed j =>
      cases hi
      exact hlookup hf
  | insert name value | plain name value => exact hname hf hi

-- It reads every block that was written with the smaller one.
theorem read (h : Ahead t u) {t' : Table size} {reps : List (Rep ν ω)} {fields : List (ν × ω)}
    (hread : t.read fixed reps = some (t', fields)) :
    ∃ u', u.read fixed reps = some (u', fields) ∧ Ahead t' u' := by
  induction reps generalizing t u fields with
  | nil =>
      cases hread
      exact ⟨u, rfl, h⟩
  | cons rep reps ih =>
      obtain ⟨f, rest, hf, hrest, rfl⟩ := Table.read_cons_eq_some hread
      have hu := h.akin.field hf
      rw [if_pos fun i hi => h.index_le hf hi] at hu
      obtain ⟨u', hread', hahead⟩ := ih (h.after rep f) hrest
      refine ⟨u', ?_, hahead⟩
      simp only [Table.read, hu, Option.bind_some, hread', Option.map_some]

end Ahead

end DynamicTable
