import Mathlib.Data.List.Basic

namespace Codec

variable {α β γ : Type*}

-- Take items off the front until nothing is left; every item takes some input.
def parseUpTo (parse : List β → Option (α × List β)) : Nat → List β → Option (List α)
  | _, [] => some []
  | 0, _ :: _ => none
  | fuel + 1, b :: input =>
      match parse (b :: input) with
      | none => none
      | some (item, rest) => (parseUpTo parse fuel rest).map (item :: ·)

def parseAll (parse : List β → Option (α × List β)) (input : List β) : Option (List α) :=
  parseUpTo parse input.length input

variable {parse : List β → Option (α × List β)}

-- What holds of every item that the parser can take off holds of all of them.
theorem parseUpTo_forall {p : α → Prop} (hp : ∀ input item rest, parse input = some (item, rest) → p item)
    {fuel : Nat} {input : List β} {items : List α} (h : parseUpTo parse fuel input = some items) :
    ∀ item ∈ items, p item := by
  induction fuel generalizing input items with
  | zero =>
      cases input with
      | nil =>
          cases h
          simp
      | cons b input => cases h
  | succ fuel ih =>
      cases input with
      | nil =>
          cases h
          simp
      | cons b input =>
          simp only [parseUpTo] at h
          split at h
          · cases h
          · rename_i item rest hparse
            obtain ⟨more, hmore, rfl⟩ := Option.map_eq_some_iff.mp h
            intro other ho
            rcases List.mem_cons.mp ho with rfl | ho
            · exact hp _ _ _ hparse
            · exact ih hmore other ho

theorem parseAll_forall {p : α → Prop} (hp : ∀ input item rest, parse input = some (item, rest) → p item)
    {input : List β} {items : List α} (h : parseAll parse input = some items) :
    ∀ item ∈ items, p item := parseUpTo_forall hp h

-- Items written one behind the other are read one by one.
theorem parseAll_flatMap (encode : γ → List β) (view : γ → α) {items : List γ}
    (hparse : ∀ x ∈ items, ∀ rest, parse (encode x ++ rest) = some (view x, rest))
    (hne : ∀ x ∈ items, encode x ≠ []) :
    parseAll parse (items.flatMap encode) = some (items.map view) := by
  have hfuel : ∀ fuel, (items.flatMap encode).length ≤ fuel →
      parseUpTo parse fuel (items.flatMap encode) = some (items.map view) := by
    induction items with
    | nil =>
        intro fuel _
        cases fuel <;> rfl
    | cons x items ih =>
        intro fuel hle
        obtain ⟨b, bs, hb⟩ := List.exists_cons_of_ne_nil (hne x (by simp))
        rw [List.flatMap_cons, hb, List.cons_append, List.length_cons] at hle
        cases fuel with
        | zero => omega
        | succ fuel =>
            have hx := hparse x (by simp) (items.flatMap encode)
            have hrest := ih (fun y hy => hparse y (by simp [hy])) (fun y hy => hne y (by simp [hy])) fuel
              (by rw [List.length_append] at hle; omega)
            rw [List.flatMap_cons]
            rw [hb, List.cons_append] at hx ⊢
            simp only [parseUpTo, hx, hrest, Option.map_some, List.map_cons]
  exact hfuel _ (Nat.le_refl _)

end Codec
