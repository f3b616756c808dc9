import NeverFox.Client.Deeds
import Mathlib.Algebra.Order.Ring.Rat
import Mathlib.Tactic.Linarith

namespace NeverFox.Client

-- A Set-Cookie as a host sends it: when, and with an Expires that `_add` does
-- not read.
structure SetCookie where
  host : String
  now : Rat
  morsel : Morsel
  expires : String
  deriving DecidableEq

-- The value of a Max-Age by RFC 6265, section 5.2.2; another text is no Max-Age.
def deltaSeconds (text : String) : Option Int :=
  match text.toList with
  | '-' :: digits =>
      if digits ≠ [] ∧ digits.all (PyText.isDigit 10) then some (-(PyText.ofDigits 10 digits : Int))
      else none
  | digits =>
      if digits ≠ [] ∧ digits.all (PyText.isDigit 10) then some (PyText.ofDigits 10 digits : Int)
      else none

namespace SetCookie

-- The key it is for, unless its Domain is not allowed.
def key? (s : SetCookie) : Option CookieKey := cookieKey s.host s.morsel

def deed (s : SetCookie) : Deed := deedOf s.host s.now s.morsel

-- The end of a lifetime of so many seconds, as the jar keeps it.
def ends (s : SetCookie) (age : Int) : Rat := CookieJar.expiry s.now age

-- The lifetime it gives reaches a time.
def Lasts (date : String → Option Rat) (s : SetCookie) (t : Rat) : Prop :=
  match deltaSeconds s.morsel.maxAge with
  | some age => 0 < age ∧ t ≤ s.now + age
  | none => ∀ d, date s.expires = some d → s.now ≤ d ∧ t ≤ d

-- The lifetime that the jar keeps is not longer: int() reads the Max-Age, no
-- Expires has to stand in for a missing one, and the end of the lifetime is not
-- rounded up, and not at zero, which stands for no end.
structure Timely (date : String → Option Rat) (s : SetCookie) : Prop where
  number : ∀ age, deltaSeconds s.morsel.maxAge = some age →
    countedAge s.morsel = some age ∧ (0 < age → s.ends age ≠ 0 ∧ s.ends age ≤ s.now + age)
  dated : deltaSeconds s.morsel.maxAge = none → ∀ d, date s.expires = some d →
    ∃ age, countedAge s.morsel = some age ∧ (0 < age → s.ends age ≠ 0 ∧ s.now ≤ d ∧ s.ends age ≤ d)

-- What is asked of a Set-Cookie whose Domain is allowed: that its Max-Age does not
-- raise, and that its lifetime is kept if it has a value.
def Kept (date : String → Option Rat) (s : SetCookie) : Prop :=
  s.key? ≠ none → (∀ age, countedAge s.morsel = some age → age < CookieJar.floatOverflow) ∧
    (s.morsel.value ≠ "" → s.Timely date)

end SetCookie

-- What `_add` sees of the entries that are loaded.
def entries (load : String → Option (List (Morsel × String))) (raw : String) : Option (List Morsel) :=
  (load raw).map fun loaded => loaded.map Prod.fst

-- The Set-Cookies of one response.
def response (load : String → Option (List (Morsel × String))) (host : String) (now : Rat)
    (values : List String) : List SetCookie :=
  values.flatMap fun raw =>
    ((load raw).getD []).map fun entry => ⟨PyText.lower host, now, entry.1, entry.2⟩

-- All that the hosts send in a history of calls.
def sent (load : String → Option (List (Morsel × String))) (calls : List JarCall) : List SetCookie :=
  calls.flatMap fun
    | .setFromResponse host now values => response load host now values
    | .headerFor .. => []

-- The last Set-Cookie for a key.
def latest (cookies : List SetCookie) (key : CookieKey) : Option SetCookie :=
  cookies.reverse.find? fun s => s.key? = some key

theorem latest_concat (cookies : List SetCookie) (s : SetCookie) (key : CookieKey) :
    latest (cookies ++ [s]) key = if s.key? = some key then some s else latest cookies key := by
  unfold latest
  rw [List.reverse_append, List.reverse_singleton, List.singleton_append, List.find?_cons]
  by_cases hs : s.key? = some key <;> simp [hs]

-- int() reads a Max-Age as the number it is, or rejects it for its length.
theorem intOfStr_of_deltaSeconds {text : String} {age : Int} (h : deltaSeconds text = some age) :
    PyText.intOfStr 10 text.toList = some age ∨ PyText.intOfStr 10 text.toList = none := by
  unfold deltaSeconds at h
  split at h
  · rename_i digits htext
    by_cases hd : digits ≠ [] ∧ digits.all (PyText.isDigit 10)
    · rw [if_pos hd] at h
      obtain rfl := Option.some.inj h
      rw [htext, PyText.intOfStr_negative digits hd.1 (List.all_eq_true.mp hd.2)]
      split
      · exact .inr rfl
      · exact .inl rfl
    · rw [if_neg hd] at h
      cases h
  · by_cases hd : text.toList ≠ [] ∧ text.toList.all (PyText.isDigit 10)
    · rw [if_pos hd] at h
      obtain rfl := Option.some.inj h
      rw [PyText.intOfStr_digits 10 _ hd.1 (List.all_eq_true.mp hd.2)]
      split
      · exact .inr rfl
      · exact .inl rfl
    · rw [if_neg hd] at h
      cases h

theorem countedAge_of_deltaSeconds {m : Morsel} {age : Int} (h : deltaSeconds m.maxAge = some age) :
    countedAge m = some age ∨ countedAge m = none := by
  unfold countedAge
  split
  · exact .inr rfl
  · exact intOfStr_of_deltaSeconds h

-- What is stored, and until when.
theorem deedOf_eq_store {host : String} {now : Rat} {m : Morsel} {c : Cookie}
    (h : deedOf host now m = .store c) :
    m.value ≠ "" ∧ cookieKey host m = some c.key ∧
      (countedAge m = none ∧ c.expires = none ∨
        ∃ age, countedAge m = some age ∧ 0 < age ∧ c.expires = some (CookieJar.expiry now age)) := by
  rcases deedOf_cases host now m with ⟨_, hd⟩ | ⟨domain, hdomain, ⟨_, hd⟩ | ⟨_, _, hd⟩ | ⟨_, hkept, hd⟩⟩ <;>
    rw [hd] at h
  · cases h
  · cases h
  · cases h
  · obtain rfl := Deed.store.inj h
    simp only [deletes, Bool.or_eq_false_iff, decide_eq_false_iff_not] at hkept
    refine ⟨hkept.1, by rw [cookieKey, hdomain]; rfl, ?_⟩
    cases hage : countedAge m with
    | none => exact .inl ⟨rfl, rfl⟩
    | some age =>
        have hpos := hkept.2
        rw [hage, Option.any_some, decide_eq_false_iff_not] at hpos
        exact .inr ⟨age, rfl, by omega, rfl⟩

theorem deedOf_eq_refuse {host : String} {now : Rat} {m : Morsel} (h : deedOf host now m = .refuse) :
    ∃ age, countedAge m = some age ∧ CookieJar.floatOverflow ≤ age := by
  rcases deedOf_cases host now m with ⟨_, hd⟩ | ⟨domain, _, ⟨hover, _⟩ | ⟨_, _, hd⟩ | ⟨_, _, hd⟩⟩
  · rw [hd] at h
    cases h
  · obtain ⟨age, hage, hle⟩ := Option.any_eq_true _ _ |>.mp hover
    exact ⟨age, hage, of_decide_eq_true hle⟩
  · rw [hd] at h
    cases h
  · rw [hd] at h
    cases h

-- What the other deeds say about the key.
theorem key?_deedOf (host : String) (now : Rat) (m : Morsel) :
    deedOf host now m = .refuse ∨ (deedOf host now m).key? = cookieKey host m := by
  rw [cookieKey]
  rcases deedOf_cases host now m with ⟨hdomain, hd⟩ | ⟨domain, hdomain, ⟨_, hd⟩ | ⟨_, _, hd⟩ | ⟨_, _, hd⟩⟩
  · exact .inr (by rw [hd, hdomain]; rfl)
  · exact .inl hd
  · exact .inr (by rw [hd, hdomain]; rfl)
  · exact .inr (by rw [hd, hdomain]; rfl)

-- A Set-Cookie that is stored is kept no longer than it lasts exactly when it
-- is timely.
theorem timely_iff (date : String → Option Rat) (s : SetCookie) {c : Cookie} (h : s.deed = .store c) :
    s.Timely date ↔ ∀ t, CookieJar.expired t c = false → s.Lasts date t := by
  obtain ⟨_, _, hage⟩ := deedOf_eq_store h
  have hexpired : ∀ t, CookieJar.expired t c = false ↔
      ∀ age, countedAge s.morsel = some age → s.ends age = 0 ∨ t ≤ s.ends age := by
    intro t
    unfold CookieJar.expired SetCookie.ends
    rcases hage with ⟨hnone, hexp⟩ | ⟨age, hsome, _, hexp⟩
    · simp [hnone, hexp]
    · simp [hsome, hexp, or_iff_not_imp_left, not_lt]
  have hstored : ∀ age, countedAge s.morsel = some age → 0 < age := by
    intro age hread
    rcases hage with ⟨hnone, _⟩ | ⟨other, hsome, hpos, _⟩
    · rw [hread] at hnone
      cases hnone
    · rw [hread] at hsome
      obtain rfl := Option.some.inj hsome
      exact hpos
  constructor
  · intro ht t hlive
    rw [hexpired] at hlive
    unfold SetCookie.Lasts
    cases hd : deltaSeconds s.morsel.maxAge with
    | some age =>
        obtain ⟨hread, hbound⟩ := ht.number age hd
        have hpos := hstored age hread
        obtain ⟨hnonzero, hle⟩ := hbound hpos
        exact ⟨hpos, ((hlive age hread).resolve_left hnonzero).trans hle⟩
    | none =>
        intro d hdate
        obtain ⟨age, hread, hbound⟩ := ht.dated hd d hdate
        have hpos := hstored age hread
        obtain ⟨hnonzero, hnow, hle⟩ := hbound hpos
        exact ⟨hnow, ((hlive age hread).resolve_left hnonzero).trans hle⟩
  · intro hall
    refine ⟨?_, ?_⟩
    · intro age hd
      unfold SetCookie.Lasts at hall
      rw [hd] at hall
      rcases countedAge_of_deltaSeconds hd with hread | hread
      · refine ⟨hread, fun _ => ⟨fun hzero => ?_, ?_⟩⟩
        · have hlast := hall (s.now + age + 1) ((hexpired _).mpr (by simp [hread, hzero]))
          linarith [hlast.2]
        · exact (hall (s.ends age) ((hexpired _).mpr (by simp [hread]))).2
      · -- A number that int() rejects is kept for ever.
        have hlast := hall (s.now + age + 1) ((hexpired _).mpr (by simp [hread]))
        linarith [hlast.2]
    · intro hd d hdate
      unfold SetCookie.Lasts at hall
      rw [hd] at hall
      cases hread : countedAge s.morsel with
      | none =>
          have hlast := hall (d + 1) ((hexpired _).mpr (by simp [hread]))
          linarith [(hlast d hdate).2]
      | some age =>
          refine ⟨age, rfl, fun _ => ⟨fun hzero => ?_, ?_⟩⟩
          · have hlast := hall (d + 1) ((hexpired _).mpr (by simp [hread, hzero]))
            linarith [(hlast d hdate).2]
          · exact hall (s.ends age) ((hexpired _).mpr (by simp [hread])) d hdate

-- On whole seconds nothing is rounded, and a Max-Age that int() reads is kept.
theorem timely_of_whole (date : String → Option Rat) (s : SetCookie) {now age : Int} (hnow : s.now = now)
    (hdelta : deltaSeconds s.morsel.maxAge = some age) (hread : countedAge s.morsel = some age)
    (hage : age.natAbs < 2 ^ 53) (hsum : (now + age).natAbs < 2 ^ 53) (hend : now + age ≠ 0) :
    s.Timely date := by
  have hends : s.ends age = s.now + age := by
    rw [SetCookie.ends, CookieJar.expiry, Binary64.nearest_intCast hage, hnow, ← Int.cast_add,
      Binary64.nearest_intCast hsum]
  refine ⟨?_, ?_⟩
  · intro other hother
    obtain rfl := Option.some.inj (hdelta.symm.trans hother)
    refine ⟨hread, fun _ => ⟨?_, le_of_eq hends⟩⟩
    rw [hends, hnow, ← Int.cast_add]
    exact Int.cast_ne_zero.mpr hend
  · intro hnone
    rw [hdelta] at hnone
    cases hnone

-- What the jar holds is what the last Set-Cookie for the key stored.
def Current (cookies : List SetCookie) (jar : CookieJar) : Prop :=
  ∀ key c, Dict.get? jar key = some c →
    key = c.key ∧ ∃ s ∈ cookies, latest cookies key = some s ∧ s.deed = .store c

theorem current_concat {cookies : List SetCookie} {jar : CookieJar} (h : Current cookies jar)
    (s : SetCookie) (hs : s.deed ≠ .refuse) : Current (cookies ++ [s]) (s.deed.apply jar) := by
  have hkey : s.deed.key? = s.key? := (key?_deedOf s.host s.now s.morsel).resolve_left hs
  intro key c hc
  rw [latest_concat, ← hkey]
  by_cases hk : s.deed.key? = some key
  · rw [if_pos hk]
    cases hd : s.deed with
    | ignore => rw [hd] at hk; cases hk
    | refuse => exact absurd hd hs
    | delete other =>
        rw [hd] at hc hk
        rw [Deed.apply, Dict.get?_erase, if_pos (Option.some.inj hk).symm] at hc
        cases hc
    | store stored =>
        rw [hd] at hc hk
        rw [Deed.apply, Dict.get?_set, if_pos (Option.some.inj hk).symm] at hc
        obtain rfl := Option.some.inj hc
        exact ⟨(Option.some.inj hk).symm, s, by simp, rfl, hd⟩
  · rw [if_neg hk]
    rw [get?_apply_of_ne jar s.deed key hk] at hc
    obtain ⟨hsame, last, hmem, hlast, hstore⟩ := h key c hc
    exact ⟨hsame, last, List.mem_append_left _ hmem, hlast, hstore⟩

theorem current_append {cookies : List SetCookie} {jar : CookieJar} (h : Current cookies jar)
    (more : List SetCookie) (hmore : ∀ s ∈ more, s.deed ≠ .refuse) :
    Current (cookies ++ more) ((more.map SetCookie.deed).foldl Deed.apply jar) := by
  induction more generalizing cookies jar with
  | nil => simpa using h
  | cons s more ih =>
      rw [List.forall_mem_cons] at hmore
      rw [List.append_cons, List.map_cons, List.foldl_cons]
      exact ih (current_concat h s hmore.1) hmore.2

theorem deed_ne_refuse {date : String → Option Rat} {s : SetCookie} (h : s.Kept date) :
    s.deed ≠ .refuse := by
  intro hd
  have hkey : s.key? ≠ none := by
    unfold SetCookie.key? cookieKey
    unfold SetCookie.deed deedOf at hd
    cases hdomain : cookieDomain s.host s.morsel with
    | none => rw [hdomain] at hd; cases hd
    | some domain => simp
  obtain ⟨age, hread, hover⟩ := deedOf_eq_refuse hd
  have := (h hkey).1 age hread
  omega

theorem deeds_response (load : String → Option (List (Morsel × String))) (host : String) (now : Rat)
    (values : List String) : (received (entries load) values).map (deedOf (PyText.lower host) now) =
      (response load host now values).map SetCookie.deed := by
  induction values with
  | nil => rfl
  | cons raw values ih =>
      unfold received response at ih ⊢
      rw [List.flatMap_cons, List.flatMap_cons, List.map_append, List.map_append, ih]
      congr 1
      unfold entries
      cases load raw with
      | none => rfl
      | some loaded => simp [SetCookie.deed, Function.comp_def]

theorem executed_eq {deeds : List Deed} (h : ∀ deed ∈ deeds, deed ≠ .refuse) : executed deeds = deeds := by
  rw [executed, List.takeWhile_eq_self_iff]
  intro deed hd
  simpa using h deed hd

theorem current_history (load : String → Option (List (Morsel × String))) (date : String → Option Rat)
    (calls : List JarCall) (h : ∀ s ∈ sent load calls, s.Kept date) :
    Current (sent load calls) (calls.foldl (CookieJar.call (entries load)) .empty) := by
  induction calls using List.reverseRecOn with
  | nil => exact nofun
  | append_singleton calls call ih =>
      unfold sent at h ih ⊢
      rw [List.flatMap_append, List.flatMap_singleton] at h ⊢
      rw [List.foldl_concat]
      have hbefore := ih fun s hs => h s (List.mem_append_left _ hs)
      cases call with
      | setFromResponse host now values =>
          have hmore : ∀ s ∈ response load host now values, s.deed ≠ .refuse := fun s hs =>
            deed_ne_refuse (h s (List.mem_append_right _ hs))
          rw [CookieJar.call, setFromResponse_deeds, deeds_response, executed_eq]
          · exact current_append hbefore _ hmore
          · intro deed hd
            obtain ⟨s, hs, rfl⟩ := List.mem_map.mp hd
            exact hmore s hs
      | headerFor host path secure now =>
          intro key c hc
          rw [List.append_nil]
          exact hbefore key c (Traced.get?_headerFor _ host path secure now hc)

-- A cookie that is sent at a time has a Set-Cookie for its key, and the latest of
-- them gave it a lifetime that reaches this time, in every history of Set-Cookies
-- that the jar keeps no longer than they last.
theorem lifetimes_kept (load : String → Option (List (Morsel × String))) (date : String → Option Rat)
    (calls : List JarCall) (h : ∀ s ∈ sent load calls, s.Kept date) (host path : String)
    (secure : Bool) (t : Rat) :
    (CookieJar.headerFor (calls.foldl (CookieJar.call (entries load)) .empty) host path secure t).1 =
      "; ".intercalate ((CookieJar.selected (calls.foldl (CookieJar.call (entries load)) .empty)
        host path secure t).map fun c => s!"{c.name}={c.value}") ∧
    ∀ c ∈ CookieJar.selected (calls.foldl (CookieJar.call (entries load)) .empty) host path secure t,
      ∃ s, latest (sent load calls) c.key = some s ∧ s.Lasts date t := by
  refine ⟨rfl, ?_⟩
  intro c hc
  obtain ⟨hstored, hlive, _⟩ := mem_selected.mp hc
  obtain ⟨key, hget⟩ := Dict.exists_key hstored
  obtain ⟨hkey, s, hmem, hlast, hdeed⟩ := current_history load date calls h key c hget
  obtain ⟨hvalue, haccepted, _⟩ := deedOf_eq_store hdeed
  have hkept := h s hmem
  have hallowed : s.key? ≠ none := by
    rw [SetCookie.key?, haccepted]
    simp
  refine ⟨s, ?_, (timely_iff date s hdeed).mp ((hkept hallowed).2 hvalue) t hlive⟩
  rw [← hkey]
  exact hlast

-- `sid=1; Max-Age=60`, and the logout `sid=gone; Expires=Thu, 01 Jan 1970 00:00:00 GMT`.
def loginEntry : Morsel × String := ({ name := "sid", value := "1", maxAge := "60" }, "")

def logoutEntry : Morsel × String :=
  ({ name := "sid", value := "gone" }, "Thu, 01 Jan 1970 00:00:00 GMT")

def epoch (text : String) : Option Rat := if text = "Thu, 01 Jan 1970 00:00:00 GMT" then some 0 else none

theorem login_lasts :
    ∃ s, latest (sent (fun _ => some [loginEntry]) [.setFromResponse "a.example" 100 ["login"]])
      ("a.example", "/", "sid") = some s ∧ s.Lasts epoch 150 := by
  have hkept : ∀ s ∈ sent (fun _ => some [loginEntry])
      [.setFromResponse "a.example" 100 ["login"]], s.Kept epoch := by
    intro s hs
    have hs' : s = ⟨"a.example", 100, loginEntry.1, ""⟩ := by
      have hsent : sent (fun _ => some [loginEntry]) [.setFromResponse "a.example" 100 ["login"]] =
          [⟨"a.example", 100, loginEntry.1, ""⟩] := by decide +kernel
      rw [hsent] at hs
      exact List.mem_singleton.mp hs
    have hage : countedAge s.morsel = some 60 := by rw [hs']; decide +kernel
    have hdelta : deltaSeconds s.morsel.maxAge = some 60 := by rw [hs']; decide +kernel
    have hnow : s.now = (100 : Int) := by rw [hs']; rfl
    intro _
    refine ⟨?_, fun _ => timely_of_whole epoch s hnow hdelta hage (by decide) (by decide) (by decide)⟩
    intro age h
    obtain rfl := Option.some.inj (hage.symm.trans h)
    decide +kernel
  have hsent : (⟨"sid", "1", "a.example", "/", false, some 160⟩ : Cookie) ∈
      CookieJar.selected ([JarCall.setFromResponse "a.example" 100 ["login"]].foldl
        (CookieJar.call (entries fun _ => some [loginEntry])) .empty) "a.example" "/" true 150 := by
    decide +kernel
  exact (lifetimes_kept (fun _ => some [loginEntry]) epoch
    [.setFromResponse "a.example" 100 ["login"]] hkept "a.example" "/" true 150).2 _ hsent

-- A logout by Expires stores its cookie for good.
theorem logout_cookie_resent :
    (CookieJar.headerFor ([JarCall.setFromResponse "a.example" 100 ["login"],
        .setFromResponse "a.example" 110 ["logout"]].foldl
      (CookieJar.call (entries fun raw =>
        some [if raw = "login" then loginEntry else logoutEntry])) .empty)
      "a.example" "/" true 120).1 = "sid=gone" ∧
    ¬∀ c ∈ CookieJar.selected ([JarCall.setFromResponse "a.example" 100 ["login"],
        .setFromResponse "a.example" 110 ["logout"]].foldl
      (CookieJar.call (entries fun raw =>
        some [if raw = "login" then loginEntry else logoutEntry])) .empty)
      "a.example" "/" true 120, ∃ s, latest (sent (fun raw =>
        some [if raw = "login" then loginEntry else logoutEntry])
        [.setFromResponse "a.example" 100 ["login"], .setFromResponse "a.example" 110 ["logout"]])
          c.key = some s ∧ s.Lasts epoch 120 := by
  refine ⟨by decide +kernel, ?_⟩
  intro h
  obtain ⟨s, hlatest, hlasts⟩ := h ⟨"sid", "gone", "a.example", "/", false, none⟩ (by decide +kernel)
  have hlogout : latest (sent (fun raw => some [if raw = "login" then loginEntry else logoutEntry])
      [.setFromResponse "a.example" 100 ["login"], .setFromResponse "a.example" 110 ["logout"]])
        ("a.example", "/", "sid") =
      some ⟨"a.example", 110, logoutEntry.1, logoutEntry.2⟩ := by decide +kernel
  obtain rfl := Option.some.inj (hlogout.symm.trans hlatest)
  have hdelta : deltaSeconds logoutEntry.1.maxAge = none := by decide +kernel
  rw [SetCookie.Lasts, hdelta] at hlasts
  exact absurd (hlasts 0 (by decide +kernel)).1 (by decide +kernel)

end NeverFox.Client
