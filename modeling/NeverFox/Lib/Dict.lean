import Mathlib.Data.List.Basic
import Mathlib.Data.List.Nodup

-- A mapping that remembers the order in which its keys were first inserted.
-- Replacing a value keeps the key's place.
structure Dict (α β : Type*) where
  entries : List (α × β)
  nodup : (entries.map Prod.fst).Nodup

namespace Dict

variable {α β : Type*}

def empty : Dict α β := ⟨[], List.nodup_nil⟩

def keys (d : Dict α β) : List α := d.entries.map Prod.fst

def values (d : Dict α β) : List β := d.entries.map Prod.snd

variable [DecidableEq α]

def get? (d : Dict α β) (key : α) : Option β :=
  (d.entries.find? fun entry => entry.1 = key).map Prod.snd

def getD (d : Dict α β) (key : α) (default : β) : β := (d.get? key).getD default

private theorem replace_keys (entries : List (α × β)) (key : α) (value : β) :
    (entries.map fun entry => if entry.1 = key then (key, value) else entry).map Prod.fst =
      entries.map Prod.fst := by
  rw [List.map_map]
  apply List.map_congr_left
  intro entry _
  by_cases he : entry.1 = key <;> simp [he]

def set (d : Dict α β) (key : α) (value : β) : Dict α β :=
  if hk : key ∈ d.keys then
    ⟨d.entries.map fun entry => if entry.1 = key then (key, value) else entry,
      by rw [replace_keys]; exact d.nodup⟩
  else
    ⟨d.entries ++ [(key, value)], by
      rw [List.map_append, List.nodup_append]
      refine ⟨d.nodup, by simp, ?_⟩
      intro a ha b hb he
      have hb' : b = key := by simpa using hb
      exact hk (hb' ▸ he ▸ ha)⟩

def erase (d : Dict α β) (key : α) : Dict α β :=
  ⟨d.entries.filter fun entry => entry.1 ≠ key,
    (List.filter_sublist.map Prod.fst).nodup d.nodup⟩

private theorem find_replace_self (entries : List (α × β)) (key : α) (value : β)
    (hk : key ∈ entries.map Prod.fst) :
    (entries.map fun entry => if entry.1 = key then (key, value) else entry).find?
      (fun entry => entry.1 = key) = some (key, value) := by
  induction entries with
  | nil => simp at hk
  | cons entry rest ih =>
      by_cases he : entry.1 = key
      · simp [he]
      · have hrest : key ∈ rest.map Prod.fst :=
          (List.mem_cons.mp hk).resolve_left fun h => he h.symm
        simpa [he] using ih hrest

private theorem find_replace_other (entries : List (α × β)) (key other : α) (value : β)
    (ho : other ≠ key) :
    (entries.map fun entry => if entry.1 = key then (key, value) else entry).find?
      (fun entry => entry.1 = other) = entries.find? fun entry => entry.1 = other := by
  induction entries with
  | nil => rfl
  | cons entry rest ih =>
      by_cases he : entry.1 = key
      · simp only [List.map_cons, he, ↓reduceIte, List.find?_cons, Ne.symm ho, decide_false, ih]
      · simp only [List.map_cons, he, ↓reduceIte, List.find?_cons, ih]

theorem get?_of_mem {d : Dict α β} {key : α} {value : β} (h : (key, value) ∈ d.entries) :
    d.get? key = some value := by
  obtain ⟨entries, nodup⟩ := d
  unfold get?
  dsimp only at h ⊢
  induction entries with
  | nil => cases h
  | cons entry rest ih =>
      rw [List.map_cons, List.nodup_cons] at nodup
      rcases List.mem_cons.mp h with rfl | hm
      · simp
      · have hne : entry.1 ≠ key := fun he => nodup.1 (he ▸ List.mem_map_of_mem hm)
        simpa [hne] using ih nodup.2 hm

theorem exists_key {d : Dict α β} {value : β} (h : value ∈ d.values) :
    ∃ key, d.get? key = some value := by
  obtain ⟨⟨key, value⟩, hm, rfl⟩ := List.mem_map.mp h
  exact ⟨key, get?_of_mem hm⟩

-- What only the list of one key has is found there as often as in all lists.
theorem count_flatten_values {γ : Type*} [BEq γ] [LawfulBEq γ] (d : Dict α (List γ)) (key : α) (x : γ)
    (h : ∀ other, other ≠ key → x ∉ d.getD other []) :
    d.values.flatten.count x = (d.getD key []).count x := by
  have hother : ∀ entry ∈ d.entries, entry.1 ≠ key → entry.2.count x = 0 := by
    rintro ⟨other, conns⟩ hm hne
    refine List.count_eq_zero_of_not_mem ?_
    simpa [getD, get?_of_mem hm] using h other hne
  obtain ⟨entries, nodup⟩ := d
  unfold values getD get?
  dsimp only at hother ⊢
  clear h
  induction entries with
  | nil => simp
  | cons entry rest ih =>
      rw [List.map_cons, List.nodup_cons] at nodup
      rw [List.map_cons, List.flatten_cons, List.count_append]
      by_cases he : entry.1 = key
      · have hrest : ((rest.map Prod.snd).flatten).count x = 0 := by
          refine List.count_eq_zero_of_not_mem fun hx => ?_
          obtain ⟨conns, hconns, hx⟩ := List.mem_flatten.mp hx
          obtain ⟨other, hm, rfl⟩ := List.mem_map.mp hconns
          have hne : other.1 ≠ key := fun ho => nodup.1 (he ▸ ho ▸ List.mem_map_of_mem hm)
          have hzero := hother other (List.mem_cons_of_mem _ hm) hne
          exact List.count_eq_zero.mp hzero hx
        simp [he, hrest]
      · rw [hother entry List.mem_cons_self he,
          ih nodup.2 fun other hm => hother other (List.mem_cons_of_mem _ hm)]
        simp [he]

theorem mem_flatten_values {γ : Type*} {d : Dict α (List γ)} {x : γ} (h : x ∈ d.values.flatten) :
    ∃ key, x ∈ d.getD key [] := by
  obtain ⟨conns, hconns, hx⟩ := List.mem_flatten.mp h
  obtain ⟨key, hkey⟩ := exists_key hconns
  exact ⟨key, by simpa [getD, hkey] using hx⟩

theorem get?_set (d : Dict α β) (key other : α) (value : β) :
    (d.set key value).get? other = if other = key then some value else d.get? other := by
  unfold set
  split
  · rename_i hk
    by_cases ho : other = key
    · subst ho
      simp [get?, find_replace_self d.entries other value hk]
    · simp only [get?, find_replace_other d.entries key other value ho, ho, ↓reduceIte]
  · rename_i hk
    by_cases ho : other = key
    · subst ho
      have hn : d.entries.find? (fun entry => entry.1 = other) = none := by
        rw [List.find?_eq_none]
        intro entry he hf
        exact hk (List.mem_map.mpr ⟨entry, he, by simpa using hf⟩)
      simp [get?, List.find?_append, hn]
    · have hne : ¬key = other := fun h => ho h.symm
      simp [get?, List.find?_append, ho, hne]

theorem get?_erase (d : Dict α β) (key other : α) :
    (d.erase key).get? other = if other = key then none else d.get? other := by
  unfold erase get?
  by_cases ho : other = key
  · subst ho
    simp
  · have hsame : (d.entries.filter fun entry => entry.1 ≠ key).find? (fun entry => entry.1 = other) =
        d.entries.find? fun entry => entry.1 = other := by
      rw [List.find?_filter]
      congr 1
      funext entry
      by_cases he : entry.1 = other
      · simp [he, ho]
      · simp [he]
    rw [hsame, if_neg ho]

theorem mem_keys_iff {d : Dict α β} {key : α} : key ∈ d.keys ↔ ∃ value, d.get? key = some value := by
  constructor
  · intro h
    obtain ⟨⟨key, value⟩, hm, rfl⟩ := List.mem_map.mp h
    exact ⟨value, get?_of_mem hm⟩
  · rintro ⟨value, h⟩
    obtain ⟨entry, hf, rfl⟩ := Option.map_eq_some_iff.mp h
    have hkey : entry.1 = key := by simpa using List.find?_some hf
    rw [← hkey]
    exact List.mem_map_of_mem (List.mem_of_find?_eq_some hf)

theorem keys_set_of_mem {d : Dict α β} {key : α} (value : β) (h : key ∈ d.keys) :
    (d.set key value).keys = d.keys := by
  rw [set, dif_pos h]
  exact replace_keys d.entries key value

theorem keys_set_of_notMem {d : Dict α β} {key : α} (value : β) (h : key ∉ d.keys) :
    (d.set key value).keys = d.keys ++ [key] := by
  rw [set, dif_neg h, keys, List.map_append]
  rfl

theorem forall_set {P : α × β → Prop} {d : Dict α β} {key : α} {value : β} (h : ∀ entry ∈ d.entries, P entry)
    (hv : P (key, value)) : ∀ entry ∈ (d.set key value).entries, P entry := by
  intro entry he
  rw [set] at he
  split at he
  · obtain ⟨old, hold, rfl⟩ := List.mem_map.mp he
    by_cases hk : old.1 = key
    · simpa [hk] using hv
    · simpa [hk] using h old hold
  · rcases List.mem_append.mp he with he | he
    · exact h entry he
    · obtain rfl := List.mem_singleton.mp he
      exact hv

theorem keys_erase (d : Dict α β) (key : α) : (d.erase key).keys = d.keys.filter (· ≠ key) := by
  rw [erase, keys, keys, List.filter_map]
  rfl

@[simp] theorem getD_empty (key : α) (default : β) : (empty : Dict α β).getD key default = default := rfl

theorem getD_set (d : Dict α β) (key other : α) (value default : β) :
    (d.set key value).getD other default = if other = key then value else d.getD other default := by
  unfold getD
  rw [get?_set]
  split <;> rfl

end Dict
