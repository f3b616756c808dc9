import NeverFox.Client.CookieScope
import Mathlib.Algebra.Order.Ring.Int

namespace NeverFox.Client

-- What `_add` does for one entry, without the jar it does it to.
inductive Deed
  | ignore
  | refuse
  | delete (key : CookieKey)
  | store (c : Cookie)
  deriving DecidableEq

def Deed.apply (jar : CookieJar) : Deed → CookieJar
  | .ignore | .refuse => jar
  | .delete key => Dict.erase jar key
  | .store c => Dict.set jar c.key c

def Deed.raised : Deed → Option Exn
  | .refuse => some .overflowError
  | _ => none

-- The key a deed is about.
def Deed.key? : Deed → Option CookieKey
  | .ignore | .refuse => none
  | .delete key => some key
  | .store c => some c.key

-- int() of a Max-Age that is given.
def countedAge (m : Morsel) : Option Int :=
  if m.maxAge = "" then none else PyText.intOfStr 10 m.maxAge.toList

-- What is left under a key without an age that deletes.
def keepOrDelete (m : Morsel) (domain : String) (expires : Option Rat) : Deed :=
  let path := if m.path = "" then "/" else m.path
  if m.value = "" then .delete (domain, path, m.name)
  else .store ⟨m.name, m.value, domain, path, m.secure, expires⟩

def deedOf (host : String) (now : Rat) (m : Morsel) : Deed :=
  match cookieDomain host m with
  | none => .ignore
  | some domain =>
      match countedAge m with
      | none => keepOrDelete m domain none
      | some age =>
          if age ≤ 0 then .delete (domain, if m.path = "" then "/" else m.path, m.name)
          else if CookieJar.floatOverflow ≤ age then .refuse
          else keepOrDelete m domain (some (CookieJar.expiry now age))

-- The deeds up to one that raises.
def executed (deeds : List Deed) : List Deed := deeds.takeWhile (· ≠ .refuse)

-- The entries of all values of a response.
def received (load : String → Option (List Morsel)) (values : List String) : List Morsel :=
  values.flatMap fun raw => (load raw).getD []

-- A Max-Age that `time.time() + age` cannot take.
def overflows (m : Morsel) : Bool := (countedAge m).any (CookieJar.floatOverflow ≤ ·)

def deletes (m : Morsel) : Bool := m.value = "" || (countedAge m).any (· ≤ 0)

theorem floatOverflow_pos : 0 < CookieJar.floatOverflow := by
  have hlt : (2 : Int) ^ 970 < 2 ^ 1024 := pow_lt_pow_right₀ (by decide) (by decide)
  exact Int.sub_pos_of_lt hlt

-- All that the entry of a cookie can come to.
theorem deedOf_cases (host : String) (now : Rat) (m : Morsel) :
    cookieDomain host m = none ∧ deedOf host now m = .ignore ∨
    ∃ domain, cookieDomain host m = some domain ∧
      (overflows m ∧ deedOf host now m = .refuse ∨
      overflows m = false ∧ deletes m ∧
        deedOf host now m = .delete (domain, if m.path = "" then "/" else m.path, m.name) ∨
      overflows m = false ∧ deletes m = false ∧
        deedOf host now m = .store ⟨m.name, m.value, domain, if m.path = "" then "/" else m.path, m.secure,
          (countedAge m).map (CookieJar.expiry now)⟩) := by
  have hpos := floatOverflow_pos
  cases hdomain : cookieDomain host m with
  | none =>
      refine .inl ⟨rfl, ?_⟩
      rw [deedOf, hdomain]
  | some domain =>
      refine .inr ⟨domain, rfl, ?_⟩
      rw [deedOf, hdomain]
      dsimp only
      cases hage : countedAge m with
      | none =>
          have hfinite : overflows m = false := by rw [overflows, hage, Option.any_none]
          by_cases hvalue : m.value = ""
          · refine .inr (.inl ⟨hfinite, by simp [deletes, hvalue], ?_⟩)
            rw [keepOrDelete, if_pos hvalue]
          · refine .inr (.inr ⟨hfinite, by simp [deletes, hvalue, hage], ?_⟩)
            rw [keepOrDelete, if_neg hvalue]
            rfl
      | some age =>
          dsimp only
          by_cases hold : age ≤ 0
          · refine .inr (.inl ⟨?_, by simp [deletes, hage, hold], by rw [if_pos hold]⟩)
            simp only [overflows, hage, Option.any_some, decide_eq_false_iff_not]
            omega
          rw [if_neg hold]
          by_cases hover : CookieJar.floatOverflow ≤ age
          · exact .inl ⟨by simp [overflows, hage, hover], by rw [if_pos hover]⟩
          have hfinite : overflows m = false := by simp [overflows, hage, hover]
          rw [if_neg hover]
          by_cases hvalue : m.value = ""
          · refine .inr (.inl ⟨hfinite, by simp [deletes, hvalue], ?_⟩)
            rw [keepOrDelete, if_pos hvalue]
          · refine .inr (.inr ⟨hfinite, by simp [deletes, hvalue, hage, hold], ?_⟩)
            rw [keepOrDelete, if_neg hvalue]
            rfl

theorem apply_keepOrDelete (jar : CookieJar) (m : Morsel) (domain : String) (expires : Option Rat) :
    (keepOrDelete m domain expires).apply jar =
      if m.value = "" then Dict.erase jar (domain, if m.path = "" then "/" else m.path, m.name)
      else Dict.set jar (domain, if m.path = "" then "/" else m.path, m.name)
        ⟨m.name, m.value, domain, if m.path = "" then "/" else m.path, m.secure, expires⟩ := by
  unfold keepOrDelete
  by_cases hv : m.value = ""
  · rw [if_pos hv, if_pos hv]
    rfl
  · rw [if_neg hv, if_neg hv]
    rfl

theorem raised_keepOrDelete (m : Morsel) (domain : String) (expires : Option Rat) :
    (keepOrDelete m domain expires).raised = none := by
  unfold keepOrDelete
  dsimp only
  generalize (if m.path = "" then "/" else m.path) = path
  by_cases hv : m.value = ""
  · rw [if_pos hv]
    rfl
  · rw [if_neg hv]
    rfl

theorem addMorsel_eq (jar : CookieJar) (host : String) (now : Rat) (m : Morsel) :
    CookieJar.addMorsel jar host now m =
      ((deedOf host now m).apply jar, (deedOf host now m).raised) := by
  unfold CookieJar.addMorsel deedOf
  cases cookieDomain host m with
  | none => rfl
  | some domain =>
      dsimp only
      change (match countedAge m with | none => _ | some age => _) = _
      cases countedAge m with
      | none =>
          dsimp only
          rw [apply_keepOrDelete, raised_keepOrDelete]
      | some age =>
          dsimp only
          by_cases hold : age ≤ 0
          · rw [if_pos hold, if_pos hold]
            rfl
          · rw [if_neg hold, if_neg hold]
            by_cases hover : CookieJar.floatOverflow ≤ age
            · rw [if_pos hover, if_pos hover]
              rfl
            · rw [if_neg hover, if_neg hover, apply_keepOrDelete, raised_keepOrDelete]

theorem untilRaised_append {σ α : Type} (f : σ → α → σ × Option Exn) (s : σ) (as bs : List α) :
    untilRaised f s (as ++ bs) = match untilRaised f s as with
      | (s, none) => untilRaised f s bs
      | raised => raised := by
  induction as generalizing s with
  | nil => rfl
  | cons a as ih =>
      rw [List.cons_append, untilRaised, untilRaised]
      rcases f s a with ⟨next, exc | exc⟩
      · exact ih next
      · rfl

-- A run of runs is one run.
theorem untilRaised_flatMap {σ α β : Type} (f : σ → β → σ × Option Exn) (g : α → List β) (s : σ)
    (as : List α) :
    untilRaised (fun s a => untilRaised f s (g a)) s as = untilRaised f s (as.flatMap g) := by
  induction as generalizing s with
  | nil => rfl
  | cons a as ih =>
      rw [List.flatMap_cons, untilRaised_append, untilRaised]
      rcases untilRaised f s (g a) with ⟨next, exc | exc⟩
      · exact ih next
      · rfl

theorem addMorsels_deeds (jar : CookieJar) (host : String) (now : Rat) (ms : List Morsel) :
    (untilRaised (fun jar m => CookieJar.addMorsel jar host now m) jar ms).1 =
      (executed (ms.map (deedOf host now))).foldl Deed.apply jar := by
  induction ms generalizing jar with
  | nil => rfl
  | cons m ms ih =>
      rw [untilRaised, addMorsel_eq, List.map_cons, executed]
      generalize deedOf host now m = deed
      cases deed with
      | refuse => rfl
      | ignore => exact ih jar
      | delete key => exact ih (Dict.erase jar key)
      | store c => exact ih (Dict.set jar c.key c)

-- The jar after a response is what the deeds for its entries make of it, up to
-- the first that raises.
theorem setFromResponse_deeds (load : String → Option (List Morsel)) (jar : CookieJar) (host : String)
    (now : Rat) (values : List String) :
    (CookieJar.setFromResponse load jar host now values).1 =
      (executed ((received load values).map (deedOf (PyText.lower host) now))).foldl Deed.apply jar := by
  have hadd : ∀ jar raw, CookieJar.add load jar host now raw =
      untilRaised (fun jar m => CookieJar.addMorsel jar (PyText.lower host) now m) jar
        ((load raw).getD []) := by
    intro jar raw
    unfold CookieJar.add
    cases load raw with
    | none => rfl
    | some morsels => exact addMorsels_eq jar (PyText.lower host) now morsels
  rw [setFromResponse_eq, funext fun jar => funext fun raw => hadd jar raw, untilRaised_flatMap,
    addMorsels_deeds]
  rfl

-- A deed changes at most the entry under its key.
theorem get?_apply_of_ne (jar : CookieJar) (deed : Deed) (key : CookieKey) (h : deed.key? ≠ some key) :
    Dict.get? (deed.apply jar) key = Dict.get? jar key := by
  cases deed with
  | ignore => rfl
  | refuse => rfl
  | delete other =>
      rw [Deed.apply, Dict.get?_erase, if_neg]
      rintro rfl
      exact h rfl
  | store c =>
      rw [Deed.apply, Dict.get?_set, if_neg]
      rintro rfl
      exact h rfl

section OneOf

variable {deeds : List Deed}
    (huniq : ∀ d ∈ deeds, ∀ d' ∈ deeds, ∀ key, d.key? = some key → d'.key? = some key → d = d')

include huniq

end OneOf

end NeverFox.Client
