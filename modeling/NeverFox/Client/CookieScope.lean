import NeverFox.Client.Cookies

namespace NeverFox.Client

-- Where a cookie came from: the host that sent it, in lower case, and its entry.
structure Received where
  host : String
  morsel : Morsel
  deriving DecidableEq

def Cookie.key (c : Cookie) : CookieKey := (c.domain, c.path, c.name)

-- The key that `_add` stores an entry under, if it does not reject it.
def cookieKey (host : String) (m : Morsel) : Option CookieKey :=
  (cookieDomain host m).map fun domain => (domain, if m.path = "" then "/" else m.path, m.name)

-- The cookies that `header_for` puts into its line.
def CookieJar.selected (jar : CookieJar) (host path : String) (secure : Bool) (now : Rat) :
    List Cookie :=
  ordered (((Dict.values jar).filter fun c => !expired now c).filter
    (matchesRequest (PyText.lower host) path secure))

-- Run a function over a list until it raises.
def untilRaised {σ α : Type} (f : σ → α → σ × Option Exn) : σ → List α → σ × Option Exn
  | s, [] => (s, none)
  | s, a :: rest =>
      match f s a with
      | (s, none) => untilRaised f s rest
      | raised => raised

-- A jar with a record of where the cookie under each key came from.
structure Traced where
  jar : CookieJar
  origin : CookieKey → Option Received := fun _ => none

namespace Traced

def addMorsel (host : String) (now : Rat) (s : Traced) (m : Morsel) : Traced × Option Exn :=
  match CookieJar.addMorsel s.jar host now m with
  | (jar, none) =>
      ({ jar := jar
         origin := match cookieKey host m with
           | some key => Function.update s.origin key (some ⟨host, m⟩)
           | none => s.origin }, none)
  | (jar, some exc) => ({ s with jar := jar }, some exc)

def add (load : String → Option (List Morsel)) (host : String) (now : Rat) (s : Traced)
    (raw : String) : Traced × Option Exn :=
  match load raw with
  | none => (s, none)
  | some morsels => untilRaised (addMorsel (PyText.lower host) now) s morsels

def setFromResponse (load : String → Option (List Morsel)) (s : Traced) (host : String) (now : Rat)
    (values : List String) : Traced × Option Exn :=
  untilRaised (add load host now) s values

end Traced

-- What is called on a jar.
inductive JarCall
  | setFromResponse (host : String) (now : Rat) (values : List String)
  | headerFor (host path : String) (secure : Bool) (now : Rat)

def CookieJar.call (load : String → Option (List Morsel)) (jar : CookieJar) : JarCall → CookieJar
  | .setFromResponse host now values => (setFromResponse load jar host now values).1
  | .headerFor host path secure now => (headerFor jar host path secure now).2

def Traced.call (load : String → Option (List Morsel)) (s : Traced) : JarCall → Traced
  | .setFromResponse host now values => (s.setFromResponse load host now values).1
  | .headerFor host path secure now =>
      { s with jar := (CookieJar.headerFor s.jar host path secure now).2 }

def Traced.history (load : String → Option (List Morsel)) (calls : List JarCall) : Traced :=
  calls.foldl (Traced.call load) { jar := .empty }

-- RFC 6265: the cookie-domain of a Domain attribute, and when a host matches it.
def attributeDomain (m : Morsel) : String :=
  PyText.lower (String.ofList (match m.domain.toList with
    | '.' :: rest => rest
    | text => text))

def isOctet (label : List Char) : Bool :=
  label ≠ [] && label.length ≤ 3 && label.all (PyText.isDigit 10) && PyText.ofDigits 10 label ≤ 255

def isIPv4 (host : String) : Bool :=
  (host.toList.splitOn '.').length = 4 && (host.toList.splitOn '.').all isOctet

-- Neither an IPv4 nor an IPv6 address.
def isHostName (host : String) : Bool := !(isIPv4 host || ':' ∈ host.toList)

-- What a cookie may be sent to: the host it came from, or one that its explicit
-- Domain covers together with that host.
def MaySee (r : Received) (host : String) : Prop :=
  host = r.host ∨ r.morsel.domain ≠ "" ∧ isHostName r.host ∧ isHostName host ∧
    domainMatches r.host (attributeDomain r.morsel) ∧ domainMatches host (attributeDomain r.morsel)

-- Every cookie in a line was received, from a host and with attributes that allow it.
def Confidential (s : Traced) (host path : String) (secure : Bool) (now : Rat) : Prop :=
  ∀ c ∈ CookieJar.selected s.jar host path secure now, ∃ r, s.origin c.key = some r ∧
    c.name = r.morsel.name ∧ c.value = r.morsel.value ∧ MaySee r (PyText.lower host) ∧
      (r.morsel.secure → secure)

-- The ways in which the suffix test reaches further: a host-only cookie below
-- its host, a Domain cookie to or from an address, and a Domain with several
-- leading dots.
def Overreaches (r : Received) (host : String) : Prop :=
  host ≠ r.host ∧
    if r.morsel.domain = "" then ('.' :: r.host.toList) <:+ host.toList
    else domainMatches host (PyText.lower (lstripDots r.morsel.domain)) ∧
      (¬isHostName r.host ∨ ¬isHostName host ∨ ['.', '.'] <+: r.morsel.domain.toList ∧
        ¬(domainMatches r.host (attributeDomain r.morsel) ∧
          domainMatches host (attributeDomain r.morsel)))

-- No live cookie for this path and scheme is one of those.
def NoneOverreaches (s : Traced) (host path : String) (secure : Bool) (now : Rat) : Prop :=
  ∀ c ∈ Dict.values s.jar, CookieJar.expired now c = false → c.path.toList <+: path.toList →
    (c.secure → secure) → ∀ r, s.origin c.key = some r → ¬Overreaches r (PyText.lower host)

-- A morsel is ignored, raises, or deletes or stores under its key.
theorem addMorsel_cases (jar : CookieJar) (host : String) (now : Rat) (m : Morsel) :
    (cookieKey host m = none ∧ CookieJar.addMorsel jar host now m = (jar, none)) ∨
    (∃ exc, CookieJar.addMorsel jar host now m = (jar, some exc)) ∨
    ∃ c : Cookie, cookieDomain host m = some c.domain ∧ cookieKey host m = some c.key ∧
      c.name = m.name ∧ c.value = m.value ∧ c.secure = m.secure ∧
      (CookieJar.addMorsel jar host now m = (Dict.erase jar c.key, none) ∨
        CookieJar.addMorsel jar host now m = (Dict.set jar c.key c, none)) := by
  unfold CookieJar.addMorsel cookieKey
  cases hd : cookieDomain host m with
  | none => exact .inl ⟨rfl, rfl⟩
  | some domain =>
      dsimp only [Option.map_some]
      generalize (if m.path = "" then "/" else m.path) = path
      have hcookie : ∀ expires, ∃ c : Cookie, some domain = some c.domain ∧
          some (domain, path, m.name) = some c.key ∧ c.name = m.name ∧ c.value = m.value ∧
          c.secure = m.secure ∧ c = ⟨m.name, m.value, domain, path, m.secure, expires⟩ :=
        fun expires => ⟨⟨m.name, m.value, domain, path, m.secure, expires⟩, rfl, rfl, rfl, rfl, rfl, rfl⟩
      cases if m.maxAge = "" then none else PyText.intOfStr 10 m.maxAge.toList with
      | none =>
          obtain ⟨c, hd, hk, hn, hv, hs, rfl⟩ := hcookie none
          refine .inr (.inr ⟨_, hd, hk, hn, hv, hs, ?_⟩)
          dsimp only
          split
          · exact .inl rfl
          · exact .inr rfl
      | some age =>
          obtain ⟨c, hd, hk, hn, hv, hs, rfl⟩ := hcookie (some (CookieJar.expiry now age))
          dsimp only
          by_cases hold : age ≤ 0
          · exact .inr (.inr ⟨_, hd, hk, hn, hv, hs, .inl (by rw [if_pos hold]; rfl)⟩)
          · rw [if_neg hold]
            by_cases hover : CookieJar.floatOverflow ≤ age
            · exact .inr (.inl ⟨_, by rw [if_pos hover]⟩)
            · rw [if_neg hover]
              refine .inr (.inr ⟨_, hd, hk, hn, hv, hs, ?_⟩)
              split
              · exact .inl rfl
              · exact .inr rfl

-- The record runs beside the jar of the code.
theorem untilRaised_map {σ τ α : Type} {f : σ → α → σ × Option Exn} {g : τ → α → τ × Option Exn}
    (proj : σ → τ) (h : ∀ s a, g (proj s) a = (proj (f s a).1, (f s a).2)) (s : σ) (as : List α) :
    untilRaised g (proj s) as = (proj (untilRaised f s as).1, (untilRaised f s as).2) := by
  induction as generalizing s with
  | nil => rfl
  | cons a rest ih =>
      unfold untilRaised
      rw [h]
      rcases f s a with ⟨next, exc | exc⟩
      · exact ih next
      · rfl

-- What each call keeps, a run until an exception keeps.
theorem untilRaised_invariant {σ α : Type} {f : σ → α → σ × Option Exn} {inv : σ → Prop}
    (h : ∀ s a, inv s → inv (f s a).1) {s : σ} (hs : inv s) (as : List α) :
    inv (untilRaised f s as).1 := by
  induction as generalizing s with
  | nil => exact hs
  | cons a rest ih =>
      unfold untilRaised
      have hnext := h s a hs
      rcases hf : f s a with ⟨next, exc | exc⟩
      · exact ih (by simpa [hf] using hnext)
      · simpa [hf] using hnext

theorem addMorsels_eq (jar : CookieJar) (host : String) (now : Rat) (ms : List Morsel) :
    CookieJar.addMorsels jar host now ms =
      untilRaised (fun jar m => CookieJar.addMorsel jar host now m) jar ms := by
  induction ms generalizing jar with
  | nil => rfl
  | cons m rest ih =>
      unfold CookieJar.addMorsels untilRaised
      rcases CookieJar.addMorsel jar host now m with ⟨next, exc | exc⟩
      · exact ih next
      · rfl

theorem setFromResponse_eq (load : String → Option (List Morsel)) (jar : CookieJar) (host : String)
    (now : Rat) (values : List String) :
    CookieJar.setFromResponse load jar host now values =
      untilRaised (fun jar raw => CookieJar.add load jar host now raw) jar values := by
  induction values generalizing jar with
  | nil => rfl
  | cons raw rest ih =>
      unfold CookieJar.setFromResponse untilRaised
      rcases CookieJar.add load jar host now raw with ⟨next, exc | exc⟩
      · exact ih next
      · rfl

namespace Traced

theorem jar_addMorsel (host : String) (now : Rat) (s : Traced) (m : Morsel) :
    CookieJar.addMorsel s.jar host now m = ((s.addMorsel host now m).1.jar, (s.addMorsel host now m).2) := by
  unfold addMorsel
  rcases CookieJar.addMorsel s.jar host now m with ⟨jar, exc | exc⟩ <;> rfl

theorem jar_add (load : String → Option (List Morsel)) (host : String) (now : Rat) (s : Traced)
    (raw : String) :
    CookieJar.add load s.jar host now raw = ((add load host now s raw).1.jar, (add load host now s raw).2) := by
  unfold add CookieJar.add
  cases load raw with
  | none => rfl
  | some morsels =>
      dsimp only
      rw [addMorsels_eq]
      exact untilRaised_map Traced.jar (jar_addMorsel (PyText.lower host) now) s morsels

theorem jar_history (load : String → Option (List Morsel)) (calls : List JarCall) :
    (history load calls).jar = calls.foldl (CookieJar.call load) .empty := by
  have hall : ∀ s : Traced, (calls.foldl (Traced.call load) s).jar = calls.foldl (CookieJar.call load) s.jar := by
    induction calls with
    | nil => exact fun _ => rfl
    | cons call rest ih =>
        intro s
        rw [List.foldl_cons, List.foldl_cons, ih]
        congr 1
        cases call with
        | setFromResponse host now values =>
            have hmap := congrArg Prod.fst (untilRaised_map
              (g := fun jar raw => CookieJar.add load jar host now raw) Traced.jar (jar_add load host now) s values)
            rw [← setFromResponse_eq] at hmap
            exact hmap.symm
        | headerFor host path secure now => rfl
  exact hall { jar := .empty }

-- The record names the origin of every cookie in the jar.
def Sourced (s : Traced) : Prop :=
  ∀ key c, Dict.get? s.jar key = some c → key = c.key ∧ ∃ r, s.origin key = some r ∧
    cookieDomain r.host r.morsel = some c.domain ∧ c.name = r.morsel.name ∧
    c.value = r.morsel.value ∧ c.secure = r.morsel.secure

theorem sourced_addMorsel (host : String) (now : Rat) (s : Traced) (m : Morsel) (h : s.Sourced) :
    (s.addMorsel host now m).1.Sourced := by
  have hbefore := jar_addMorsel host now s m
  unfold addMorsel
  rcases addMorsel_cases s.jar host now m with ⟨hkey, he⟩ | ⟨exc, he⟩ |
    ⟨c, hdomain, hkey, hname, hvalue, hsecure, he | he⟩ <;> rw [he] <;> dsimp only
  · rw [hkey]
    exact h
  · exact h
  · rw [hkey]
    intro key found hfound
    rw [Dict.get?_erase] at hfound
    split at hfound
    · cases hfound
    · rename_i hne
      obtain ⟨hk, r, hr, hrest⟩ := h key found hfound
      exact ⟨hk, r, (Function.update_of_ne hne _ _).trans hr, hrest⟩
  · rw [hkey]
    intro key found hfound
    rw [Dict.get?_set] at hfound
    split at hfound
    · rename_i heq
      obtain rfl := Option.some.inj hfound
      exact ⟨heq, ⟨host, m⟩, by rw [heq]; exact Function.update_self .., hdomain, hname, hvalue, hsecure⟩
    · rename_i hne
      obtain ⟨hk, r, hr, hrest⟩ := h key found hfound
      exact ⟨hk, r, (Function.update_of_ne hne _ _).trans hr, hrest⟩

theorem sourced_add (load : String → Option (List Morsel)) (host : String) (now : Rat) (s : Traced)
    (raw : String) (h : s.Sourced) : (add load host now s raw).1.Sourced := by
  unfold add
  cases load raw with
  | none => exact h
  | some morsels => exact untilRaised_invariant (sourced_addMorsel (PyText.lower host) now) h morsels

-- Dropping the expired cookies adds none.
theorem get?_headerFor (jar : CookieJar) (host path : String) (secure : Bool) (now : Rat)
    {key : CookieKey} {c : Cookie}
    (h : Dict.get? (CookieJar.headerFor jar host path secure now).2 key = some c) :
    Dict.get? jar key = some c := by
  unfold CookieJar.headerFor at h
  dsimp only at h
  generalize Dict.keys jar = keys at h
  induction keys generalizing jar with
  | nil => exact h
  | cons other rest ih =>
      rw [List.foldl_cons] at h
      have hnext := ih _ h
      split at hnext
      · split at hnext
        · rw [Dict.get?_erase] at hnext
          split at hnext
          · cases hnext
          · exact hnext
        · exact hnext
      · exact hnext

theorem sourced_history (load : String → Option (List Morsel)) (calls : List JarCall) :
    (history load calls).Sourced := by
  have hall : ∀ s : Traced, s.Sourced → (calls.foldl (Traced.call load) s).Sourced := by
    induction calls with
    | nil => exact fun _ hs => hs
    | cons call rest ih =>
        intro s hs
        refine ih _ ?_
        cases call with
        | setFromResponse host now values => exact untilRaised_invariant (sourced_add load host now) hs values
        | headerFor host path secure now =>
            intro key c hc
            exact hs key c (get?_headerFor s.jar host path secure now hc)
  exact hall { jar := .empty } nofun

end Traced

theorem attributeDomain_of_single {m : Morsel} (h : ¬['.', '.'] <+: m.domain.toList) :
    attributeDomain m = PyText.lower (lstripDots m.domain) := by
  unfold attributeDomain lstripDots
  generalize m.domain.toList = text at h
  rcases text with _ | ⟨a, rest⟩
  · rfl
  · by_cases ha : a = '.'
    · subst ha
      rcases rest with _ | ⟨b, rest⟩
      · rfl
      · have hb : b ≠ '.' := by
          rintro rfl
          exact h (by simp)
        simp [hb]
    · simp only [ha, decide_false, Bool.false_eq_true, not_false_eq_true, List.dropWhile_cons_of_neg]
      split
      · rename_i heq
        exact absurd (List.cons.inj heq).1 ha
      · rfl

-- Where the suffix test lets a cookie pass, it may be seen or it overreaches.
theorem maySee_iff {r : Received} {host domain : String} (hd : cookieDomain r.host r.morsel = some domain)
    (hm : domainMatches host domain) : MaySee r host ↔ ¬Overreaches r host := by
  unfold MaySee Overreaches
  unfold cookieDomain at hd
  by_cases hself : host = r.host
  · simp [hself]
  · by_cases hnone : r.morsel.domain = ""
    · rw [if_pos hnone] at hd
      obtain rfl := Option.some.inj hd
      have hsuffix : ('.' :: r.host.toList) <:+ host.toList := by
        simpa [domainMatches, hself] using hm
      simp [hself, hnone, hsuffix]
    · rw [if_neg hnone] at hd
      dsimp only at hd
      split at hd
      · cases hd
      · rename_i hcovers
        obtain rfl := Option.some.inj hd
        have hown : domainMatches r.host (PyText.lower (lstripDots r.morsel.domain)) = true := by
          simpa using (not_or.mp hcovers).2
        have hsingle : ¬['.', '.'] <+: r.morsel.domain.toList →
            domainMatches r.host (attributeDomain r.morsel) ∧
              domainMatches host (attributeDomain r.morsel) := by
          intro hdots
          rw [attributeDomain_of_single hdots]
          exact ⟨hown, hm⟩
        rw [if_neg hnone]
        constructor
        · rintro (hsame | ⟨_, hname, hname', hcover⟩) ⟨_, _, hno | hno | ⟨_, hno⟩⟩
          · exact hself hsame
          · exact hself hsame
          · exact hself hsame
          · exact hno hname
          · exact hno hname'
          · exact hno hcover
        · intro hno
          refine .inr ⟨hnone, ?_, ?_, ?_⟩
          · by_contra hname
            exact hno ⟨hself, hm, .inl hname⟩
          · by_contra hname
            exact hno ⟨hself, hm, .inr (.inl hname)⟩
          · by_contra hcover
            by_cases hdots : ['.', '.'] <+: r.morsel.domain.toList
            · exact hno ⟨hself, hm, .inr (.inr ⟨hdots, hcover⟩)⟩
            · exact hcover (hsingle hdots)

theorem matches_of_overreaches {r : Received} {host domain : String}
    (hd : cookieDomain r.host r.morsel = some domain) (h : Overreaches r host) :
    domainMatches host domain := by
  obtain ⟨_, hreach⟩ := h
  unfold cookieDomain at hd
  split at hd
  · rename_i hnone
    rw [if_pos hnone] at hreach
    obtain rfl := Option.some.inj hd
    simp [domainMatches, hreach]
  · rename_i hsome
    rw [if_neg hsome] at hreach
    dsimp only at hd
    split at hd
    · cases hd
    · obtain rfl := Option.some.inj hd
      exact hreach.1

theorem mem_selected {jar : CookieJar} {host path : String} {secure : Bool} {now : Rat} {c : Cookie} :
    c ∈ CookieJar.selected jar host path secure now ↔
      c ∈ Dict.values jar ∧ CookieJar.expired now c = false ∧
        domainMatches (PyText.lower host) c.domain ∧ c.path.toList <+: path.toList ∧
        (c.secure → secure) := by
  unfold CookieJar.selected CookieJar.ordered CookieJar.matchesRequest
  rw [List.mem_insertionSort]
  simp only [List.mem_filter, Bool.not_eq_true', Bool.and_eq_true, decide_eq_true_eq,
    Bool.or_eq_true, and_assoc]
  cases c.secure <;> simp

-- After every history of calls, a line keeps its cookies to the hosts they are
-- meant for exactly when no cookie of the jar is one that the suffix test sends further.
theorem confidential_iff (load : String → Option (List Morsel)) (calls : List JarCall)
    (host path : String) (secure : Bool) (now : Rat) :
    (Traced.history load calls).jar = calls.foldl (CookieJar.call load) .empty ∧
    (Confidential (Traced.history load calls) host path secure now ↔
      NoneOverreaches (Traced.history load calls) host path secure now) := by
  refine ⟨Traced.jar_history load calls, ?_⟩
  have hsourced := Traced.sourced_history load calls
  constructor
  · intro h c hc hlive hpath hsecure r hr hover
    obtain ⟨key, hkey⟩ := Dict.exists_key hc
    obtain ⟨rfl, r', hr', hdomain, _⟩ := hsourced key c hkey
    obtain rfl : r' = r := Option.some.inj (hr'.symm.trans hr)
    have hm := matches_of_overreaches hdomain hover
    obtain ⟨r'', hr'', _, _, hsee, _⟩ := h c (mem_selected.mpr ⟨hc, hlive, hm, hpath, hsecure⟩)
    obtain rfl : r'' = r' := Option.some.inj (hr''.symm.trans hr)
    exact (maySee_iff hdomain hm).mp hsee hover
  · intro h c hc
    obtain ⟨hin, hlive, hm, hpath, hsecure⟩ := mem_selected.mp hc
    obtain ⟨key, hkey⟩ := Dict.exists_key hin
    obtain ⟨rfl, r, hr, hdomain, hname, hvalue, hs⟩ := hsourced key c hkey
    refine ⟨r, hr, hname, hvalue, (maySee_iff hdomain hm).mpr ?_, hs ▸ hsecure⟩
    exact h c hin hlive hpath hsecure r hr

-- A host-only cookie of a site goes to the hosts below it.
def sessionCookie : Morsel := { name := "sid", value := "1" }

theorem host_only_cookie_leaks :
    ¬Confidential (Traced.history (fun _ => some [sessionCookie])
        [.setFromResponse "a.example" 0 ["sid=1"]]) "sub.a.example" "/" true 0 := by
  intro h
  have hsent : (⟨"sid", "1", "a.example", "/", false, none⟩ : Cookie) ∈
      CookieJar.selected (Traced.history (fun _ => some [sessionCookie])
        [.setFromResponse "a.example" 0 ["sid=1"]]).jar "sub.a.example" "/" true 0 := by decide +kernel
  have horigin : (Traced.history (fun _ => some [sessionCookie])
      [.setFromResponse "a.example" 0 ["sid=1"]]).origin ("a.example", "/", "sid") =
      some ⟨"a.example", sessionCookie⟩ := by decide +kernel
  obtain ⟨r, hr, _, _, hsee, _⟩ := h _ hsent
  obtain rfl : r = ⟨"a.example", sessionCookie⟩ := Option.some.inj (hr.symm.trans horigin)
  rcases hsee with hsame | ⟨hexplicit, _⟩
  · exact absurd hsame (by decide +kernel)
  · exact hexplicit rfl

end NeverFox.Client
