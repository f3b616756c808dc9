import NeverFox.Lib.Dict
import Mathlib.Data.List.Sort

-- What a mapping is said to hold, apart from how it is kept: under each key
-- the time at which it was put there, and the value it has now.
structure Ledger (α β : Type*) where
  entry : α → Option (Nat × β) := fun _ => none
  clock : Nat := 0

namespace Ledger

variable {α β : Type*}

-- The time since which a key has been present.
def since (l : Ledger α β) (key : α) : Nat := ((l.entry key).map Prod.fst).getD l.clock

def value? (l : Ledger α β) (key : α) : Option β := (l.entry key).map Prod.snd

def retain (l : Ledger α β) (keep : α → β → Bool) : Ledger α β :=
  { l with entry := fun key => (l.entry key).filter fun noted => keep key noted.2 }

@[simp] theorem entry_retain (l : Ledger α β) (keep : α → β → Bool) (key : α) :
    (l.retain keep).entry key = (l.entry key).filter fun noted => keep key noted.2 := rfl

theorem since_of_entry {l : Ledger α β} {key : α} {noted : Nat × β} (h : l.entry key = some noted) :
    l.since key = noted.1 := by
  simp [since, h]

variable [DecidableEq α]

-- A key that is present keeps its time.
def put (l : Ledger α β) (key : α) (value : β) : Ledger α β :=
  { entry := Function.update l.entry key (some (l.since key, value)), clock := l.clock + 1 }

theorem entry_put (l : Ledger α β) (key other : α) (value : β) :
    (l.put key value).entry other =
      if other = key then some (l.since key, value) else l.entry other :=
  Function.update_apply ..

def drop (l : Ledger α β) (key : α) : Ledger α β := l.retain fun other _ => other ≠ key

def clear (l : Ledger α β) : Ledger α β := l.retain fun _ _ => false

-- A dictionary that holds what the ledger says, in the order of its times.
structure Records (l : Ledger α β) (d : Dict α β) : Prop where
  agrees : ∀ key, d.get? key = l.value? key
  past : ∀ key noted, l.entry key = some noted → noted.1 < l.clock
  inOrder : d.keys.Pairwise fun a b => l.since a < l.since b

theorem records_empty : Records ({} : Ledger α β) Dict.empty :=
  ⟨fun _ => rfl, nofun, .nil⟩

variable {l : Ledger α β} {d d' : Dict α β}

theorem Records.entry_of_mem (h : Records l d) {key : α} (hk : key ∈ d.keys) :
    ∃ noted, l.entry key = some noted := by
  obtain ⟨value, hv⟩ := Dict.mem_keys_iff.mp hk
  rw [h.agrees, value?, Option.map_eq_some_iff] at hv
  obtain ⟨noted, hn, _⟩ := hv
  exact ⟨noted, hn⟩

-- Whatever is left out, the rest stays in its order.
theorem Records.retain (h : Records l d) (keep : α → β → Bool) (hkeys : d'.keys.Sublist d.keys)
    (hget : ∀ key, d'.get? key = (d.get? key).filter (keep key)) : Records (l.retain keep) d' := by
  have hentry : ∀ key noted, (l.retain keep).entry key = some noted → l.entry key = some noted := by
    intro key noted hn
    exact (Option.filter_eq_some_iff.mp hn).1
  have hagrees : ∀ key, d'.get? key = (l.retain keep).value? key := by
    intro key
    rw [hget, h.agrees, value?, value?, entry_retain]
    cases l.entry key with
    | none => rfl
    | some noted => cases hkeep : keep key noted.2 <;> simp [hkeep, Option.filter]
  refine ⟨hagrees, fun key noted hn => h.past key noted (hentry key noted hn), ?_⟩
  apply (h.inOrder.sublist hkeys).imp_of_mem
  intro a b ha hb hlt
  have hsame : ∀ key ∈ d'.keys, (l.retain keep).since key = l.since key := by
    intro key hk
    obtain ⟨value, hv⟩ := Dict.mem_keys_iff.mp hk
    rw [hagrees, value?, Option.map_eq_some_iff] at hv
    obtain ⟨noted, hn, _⟩ := hv
    rw [since_of_entry hn, since_of_entry (hentry key noted hn)]
  rw [hsame a ha, hsame b hb]
  exact hlt

theorem Records.drop (h : Records l d) (key : α) : Records (l.drop key) (d.erase key) := by
  apply h.retain
  · rw [Dict.keys_erase]
    exact List.filter_sublist
  · intro other
    rw [Dict.get?_erase]
    by_cases ho : other = key
    · cases d.get? other <;> simp [ho, Option.filter]
    · cases d.get? other <;> simp [ho, Option.filter]

theorem Records.clear (h : Records l d) : Records l.clear Dict.empty := by
  apply h.retain
  · exact List.nil_sublist _
  · intro key
    cases d.get? key <;> rfl

theorem since_put (key other : α) (value : β) (hkey : other = key ∨ ∃ noted, l.entry other = some noted) :
    (l.put key value).since other = l.since other := by
  by_cases ho : other = key
  · simp [ho, since, entry_put]
  · obtain ⟨noted, hn⟩ := hkey.resolve_left ho
    rw [since_of_entry hn]
    apply since_of_entry
    rw [entry_put, if_neg ho, hn]

theorem Records.put (h : Records l d) (key : α) (value : β) :
    Records (l.put key value) (d.set key value) := by
  refine ⟨?_, ?_, ?_⟩
  · intro other
    rw [Dict.get?_set, h.agrees, value?, value?, entry_put]
    split <;> rfl
  · intro other noted hn
    have hclock : (l.put key value).clock = l.clock + 1 := rfl
    rw [entry_put] at hn
    by_cases ho : other = key
    · rw [if_pos ho] at hn
      obtain rfl := Option.some.inj hn
      cases he : l.entry key with
      | none => simp [since, he, hclock]
      | some noted =>
          have := h.past key noted he
          rw [since_of_entry he]
          omega
    · rw [if_neg ho] at hn
      have := h.past other noted hn
      omega
  · have hold : d.keys.Pairwise fun a b => (l.put key value).since a < (l.put key value).since b := by
      apply h.inOrder.imp_of_mem
      intro a b ha hb hlt
      rw [since_put key a value (.inr (h.entry_of_mem ha)), since_put key b value (.inr (h.entry_of_mem hb))]
      exact hlt
    by_cases hk : key ∈ d.keys
    · rw [Dict.keys_set_of_mem value hk]
      exact hold
    · -- A key that was absent comes after all the others.
      rw [Dict.keys_set_of_notMem value hk, List.pairwise_append]
      refine ⟨hold, List.pairwise_singleton _ _, ?_⟩
      intro a ha b hb
      obtain rfl := List.mem_singleton.mp hb
      obtain ⟨noted, hn⟩ := h.entry_of_mem ha
      have hnone : l.entry b = none := by
        cases he : l.entry b with
        | none => rfl
        | some noted =>
            exact absurd (Dict.mem_keys_iff.mpr ⟨noted.2, by rw [h.agrees, value?, he]; rfl⟩) hk
      rw [since_put b a value (.inr ⟨noted, hn⟩), since_put b b value (.inl rfl), since_of_entry hn]
      have := h.past a noted hn
      simpa [since, hnone] using this

end Ledger

-- A stable sort by a weight, the greater first: what is related by place in the
-- list stays so among equals.
theorem pairwise_insertionSort_stable {α : Type*} (weight : α → Nat) {rel : α → α → Prop} {as : List α}
    (h : as.Pairwise rel) :
    (as.insertionSort fun a b => weight b ≤ weight a).Pairwise fun a b =>
      weight b < weight a ∨ weight a = weight b ∧ rel a b := by
  induction as with
  | nil => exact .nil
  | cons a as ih =>
      rw [List.pairwise_cons] at h
      rw [List.insertionSort_cons]
      have hsorted := ih h.2
      have hfirst : ∀ b ∈ as.insertionSort fun a b => weight b ≤ weight a, rel a b := by
        intro b hb
        exact h.1 b ((List.mem_insertionSort _).mp hb)
      generalize (as.insertionSort fun a b => weight b ≤ weight a) = sorted at hsorted hfirst
      induction sorted with
      | nil => exact List.pairwise_singleton _ _
      | cons b sorted ihs =>
          rw [List.pairwise_cons] at hsorted
          by_cases hle : weight b ≤ weight a
          · rw [List.orderedInsert_cons, if_pos hle, List.pairwise_cons, List.pairwise_cons]
            refine ⟨?_, hsorted⟩
            intro c hc
            have hrel := hfirst c hc
            have hbc : weight c ≤ weight b := by
              rcases List.mem_cons.mp hc with rfl | hc
              · exact Nat.le_refl _
              · have := hsorted.1 c hc
                omega
            rcases Nat.lt_or_ge (weight c) (weight a) with hlt | hge
            · exact .inl hlt
            · exact .inr ⟨by omega, hrel⟩
          · rw [List.orderedInsert_cons, if_neg hle, List.pairwise_cons]
            refine ⟨?_, ihs hsorted.2 fun c hc => hfirst c (List.mem_cons_of_mem b hc)⟩
            intro c hc
            rcases (List.mem_orderedInsert _).mp hc with rfl | hc
            · exact .inl (by omega)
            · exact hsorted.1 c hc
