import NeverFox.Client.Secrets
import Mathlib.Algebra.Order.BigOperators.Group.List

namespace NeverFox.Client

-- How often the letter x occurs in the values of a header list.
def exes (headers : List Header) : Nat := (headers.flatMap fun field => field.2.toList).count 'x'

-- Other values for the sensitive fields.
def markField (field : Header) : Header :=
  if isSensitive field then (field.1, field.2 ++ "x") else field

-- Other values for the cookies.
def markCookies : List (String × String) → List (String × String)
  | [] => []
  | c :: cookies => (c.1, "x" ++ c.2) :: cookies

theorem sameFields_mark (fields : List Header) : SameFields fields (fields.map markField) := by
  induction fields with
  | nil => exact .nil
  | cons field fields ih =>
      refine .cons ?_ ih
      unfold markField
      split
      · rename_i hs
        exact ⟨rfl, fun hf => by simp [hs] at hf⟩
      · exact sameField_refl field

theorem sameNames_mark (cookies : List (String × String)) : SameNames cookies (markCookies cookies) := by
  cases cookies with
  | nil => exact .nil
  | cons c cookies => exact .cons rfl (List.forall₂_same.mpr fun _ _ => rfl)

theorem sameHeaders_refl (headers : Option (List Header)) : SameHeaders headers headers := by
  cases headers with
  | none => exact .none
  | some fields => exact .some (sameFields_refl fields)

theorem exes_flatMap (f : Header → List Header) (fields : List Header) :
    exes (fields.flatMap f) = (fields.map fun field => exes (f field)).sum := by
  rw [exes, List.flatMap_assoc, List.count_flatMap]
  rfl

-- Two requests are told apart by one field that writes another number of x.
theorem flatMap_apart {f g : Header → List Header} {fields : List Header}
    (hle : ∀ field ∈ fields, exes (f field) ≤ exes (g field))
    (hlt : ∃ field ∈ fields, exes (f field) < exes (g field)) :
    fields.flatMap f ≠ fields.flatMap g := by
  intro heq
  have hsum := List.sum_lt_sum (fun field => exes (f field)) (fun field => exes (g field)) hle hlt
  rw [← exes_flatMap, ← exes_flatMap, heq] at hsum
  exact Nat.lt_irrefl _ hsum

theorem sensitive_name {field : Header} (h : isSensitive field) :
    PyText.lower field.1 ≠ "sec-fetch-user" ∧ PyText.lower field.1 ≠ "sec-fetch-site" ∧
      PyText.lower field.1 ≠ "accept-encoding" := by
  have hm : PyText.lower field.1 ∈ SENSITIVE_ON_REDIRECT := by simpa [isSensitive] using h
  simp only [SENSITIVE_ON_REDIRECT, List.mem_cons, List.not_mem_nil, or_false] at hm
  rcases hm with hn | hn | hn <;> rw [hn] <;> decide

theorem navigated_sensitive {field : Header} (h : isSensitive field) (cookie : String)
    (site : Option String) : navigated cookie site field = [field] := by
  obtain ⟨huser, hsite, haccept⟩ := sensitive_name h
  simp [navigated, huser, hsite, haccept]

theorem exes_mark (cookie : String) (site : Option String) (field : Header) :
    exes (navigated cookie site (markField field)) =
      exes (navigated cookie site field) + if isSensitive field then 1 else 0 := by
  unfold markField
  split
  · rename_i hs
    have hs' : isSensitive (field.1, field.2 ++ "x") := hs
    rw [navigated_sensitive hs, navigated_sensitive hs']
    simp [exes]
  · simp

-- A session field that may be secret is in every request without headers=.
theorem session_apart {s : Session} (h : ∃ field ∈ s.headers, isSensitive field)
    (bodyHeaders : List Header) (jarCookie : String) (cookies : List (String × String))
    (site : Option String) :
    buildHeaders s none bodyHeaders jarCookie cookies site ≠
      buildHeaders { s with headers := s.headers.map markField } none bodyHeaders jarCookie cookies
        site := by
  unfold buildHeaders
  intro heq
  have hmaps := List.append_cancel_right heq
  simp only [baseHeaders, Option.getD_none, List.flatMap_map] at hmaps
  refine flatMap_apart ?_ ?_ hmaps
  · intro field _
    rw [exes_mark]
    exact Nat.le_add_right _ _
  · obtain ⟨field, hm, hs⟩ := h
    exact ⟨field, hm, by simp [exes_mark, hs]⟩

theorem cookiePair_toList (c : String × String) :
    (cookiePair c).toList = c.1.toList ++ '=' :: c.2.toList := by
  simp [cookiePair, toString]

theorem cookieHeader_mark (jarCookie : String) {cookies : List (String × String)}
    (h : cookies ≠ []) :
    (cookieHeader jarCookie (markCookies cookies)).toList.count 'x' =
      (cookieHeader jarCookie cookies).toList.count 'x' + 1 := by
  obtain ⟨c, cookies, rfl⟩ := List.exists_cons_of_ne_nil h
  have hextra : ("; ".intercalate ((markCookies (c :: cookies)).map cookiePair)).toList.count 'x' =
      ("; ".intercalate ((c :: cookies).map cookiePair)).toList.count 'x' + 1 := by
    cases cookies with
    | nil =>
        simp only [markCookies, List.map_cons, List.map_nil, String.intercalate_singleton,
          cookiePair_toList, String.toList_append]
        simp
        omega
    | cons d cookies =>
        simp only [markCookies, List.map_cons, String.intercalate_cons_cons, String.toList_append,
          cookiePair_toList]
        simp
        omega
  unfold cookieHeader
  rw [if_neg h, if_neg (by simp [markCookies])]
  dsimp only
  split
  · exact hextra
  · have hx : isStripped 'x' = false := by decide
    simp only [String.toList_ofList, PyText.count_strip isStripped _ 'x' hx, String.toList_append,
      List.count_append, hextra]
    omega

theorem cookieHeader_nonempty (jarCookie : String) {cookies : List (String × String)}
    (h : cookies ≠ []) : cookieHeader jarCookie cookies ≠ "" := by
  obtain ⟨c, cookies, rfl⟩ := List.exists_cons_of_ne_nil h
  have hextra : 0 < ("; ".intercalate ((c :: cookies).map cookiePair)).toList.count '=' := by
    cases cookies with
    | nil =>
        simp only [List.map_cons, List.map_nil, String.intercalate_singleton, cookiePair_toList]
        simp
    | cons d cookies =>
        simp only [List.map_cons, String.intercalate_cons_cons, String.toList_append,
          cookiePair_toList]
        simp
  intro hempty
  unfold cookieHeader at hempty
  rw [if_neg h] at hempty
  dsimp only at hempty
  split at hempty
  · rw [hempty] at hextra
    exact absurd hextra (by decide)
  · have heq : isStripped '=' = false := by decide
    have hnil := congrArg (fun text => text.toList.count '=') hempty
    simp only [String.toList_ofList, PyText.count_strip isStripped _ '=' heq, String.toList_append,
      List.count_append, String.toList_empty, List.count_nil] at hnil
    omega

theorem exes_cookie (site : Option String) (field : Header) {cookie cookie' : String}
    (hne : cookie ≠ "") (hne' : cookie' ≠ "")
    (hx : cookie'.toList.count 'x' = cookie.toList.count 'x' + 1) :
    exes (navigated cookie' site field) = exes (navigated cookie site field) +
      if PyText.lower field.1 = "accept-encoding" then 1 else 0 := by
  unfold navigated
  dsimp only
  by_cases ha : PyText.lower field.1 = "accept-encoding"
  · have hu : ¬ (site.isSome ∧ PyText.lower field.1 = "sec-fetch-user") := by simp [ha]
    simp [ha, hne, hne', exes, hx]
    omega
  · simp [ha]

-- The cookies= pairs are in every request that has a place for them.
theorem cookies_apart {s : Session} {call : Call} {headers : Option (List Header)}
    (h : call.cookies ≠ [])
    (hplace : ∃ field ∈ baseHeaders s headers, PyText.lower field.1 = "accept-encoding")
    (bodyHeaders : List Header) (jarCookie : String) (site : Option String) :
    buildHeaders s headers bodyHeaders jarCookie call.cookies site ≠
      buildHeaders s headers bodyHeaders jarCookie (markCookies call.cookies) site := by
  have hmark : markCookies call.cookies ≠ [] := by
    obtain ⟨c, cookies, heq⟩ := List.exists_cons_of_ne_nil h
    simp [heq, markCookies]
  have hexes := fun field => exes_cookie site field (cookieHeader_nonempty jarCookie h)
    (cookieHeader_nonempty jarCookie hmark) (cookieHeader_mark jarCookie h)
  unfold buildHeaders
  intro heq
  refine flatMap_apart ?_ ?_ (List.append_cancel_right heq)
  · intro field _
    rw [hexes]
    exact Nat.le_add_right _ _
  · obtain ⟨field, hm, ha⟩ := hplace
    exact ⟨field, hm, by simp [hexes, ha]⟩

variable {W : Type} {t : Text} {s : Session} {call : Call}

-- Every hop goes to the host of the first URL.
def StaysHome (t : Text) (s : Session) (call : Call)
    (reply : W → (Except Exn Response × Rat) × W) (w : W) : Prop :=
  ∀ host ∈ route t call reply (s.maxRedirects + 1) call.url w, some host = hostOf t call.url

-- The session's own list is not used or holds no credential, and there are no
-- cookies= or no field to put them behind.
def NoneRemerged (s : Session) (call : Call) : Prop :=
  (call.headers.isSome ∨ ∀ field ∈ s.headers, isSensitive field = false) ∧
    (call.cookies = [] ∨
      ∀ field ∈ baseHeaders s call.headers, PyText.lower field.1 ≠ "accept-encoding")

def Apart (hop hop' : Hop) : Prop := hop.host = hop'.host ∧ hop ≠ hop'

theorem hosts_home {home : Option String} {hops hops' : List Hop}
    (hapart : List.Forall₂ Apart hops hops') (hsame : List.Forall₂ (SameAbroad home) hops hops') :
    ∀ host ∈ hops.map Hop.host, some host = home := by
  induction hapart with
  | nil => nofun
  | @cons hop hop' _ _ ha _ ih =>
      obtain ⟨hhead, htail⟩ := List.forall₂_cons.mp hsame
      intro host hm
      rcases List.mem_cons.mp hm with rfl | hm
      · by_contra haway
        exact ha.2 (hhead (.inl haway))
      · exact ih htail host hm

theorem sameAbroad_home {home : Option String} {hops hops' : List Hop}
    (hhosts : hops.map Hop.host = hops'.map Hop.host)
    (hhome : ∀ host ∈ hops.map Hop.host, some host = home) :
    List.Forall₂ (SameAbroad home) hops hops' := by
  induction hops generalizing hops' with
  | nil =>
      rw [List.map_nil] at hhosts
      rw [List.map_eq_nil_iff.mp hhosts.symm]
      exact .nil
  | cons hop hops ih =>
      obtain ⟨hop', hops', rfl, hhead, htail⟩ := List.map_eq_cons_iff.mp hhosts.symm
      refine .cons ?_ (ih htail.symm fun host hm => hhome host (List.mem_cons_of_mem _ hm))
      have hhop : some hop.host = home := hhome hop.host (by simp)
      intro haway
      exact (haway.elim (· hhop) (· (hhead ▸ hhop))).elim

-- The requests to other hosts, in their order.
theorem sameAbroad_filter {home : Option String} {hops hops' : List Hop}
    (h : List.Forall₂ (SameAbroad home) hops hops') :
    hops.filter (fun hop => some hop.host ≠ home) = hops'.filter fun hop => some hop.host ≠ home := by
  induction h with
  | nil => rfl
  | @cons hop hop' _ _ hh _ ih =>
      by_cases haway : some hop.host ≠ home ∨ some hop'.host ≠ home
      · obtain rfl := hh haway
        simp only [List.filter_cons, ih]
      · obtain ⟨hhome, hhome'⟩ := not_or.mp haway
        simpa [hhome, hhome'] using ih

-- Where a call is led depends on none of its secrets.
theorem route_congr {call' : Call} (h : call'.allowRedirects = call.allowRedirects)
    (reply : W → (Except Exn Response × Rat) × W) (n : Nat) (url : String) (w : W) :
    route t call' reply n url w = route t call reply n url w := by
  have hnext : ∀ url host answer now,
      nextUrl t call' url host answer now = nextUrl t call url host answer now := by
    intro url host answer now
    simp [nextUrl, target, h]
  induction n generalizing url w with
  | zero => rfl
  | succ n ih => simp only [route, hnext, ih]

-- Two runs through the same states whose header lists differ at every hop.
theorem follow_apart {fields : List Header} {cookies : List (String × String)}
    (hdiff : ∀ st, Descended s call st → ∀ jarCookie,
      buildHeaders s st.headers st.bodyHeaders jarCookie call.cookies st.redirectSite ≠
        buildHeaders { s with headers := fields } st.headers st.bodyHeaders jarCookie cookies
          st.redirectSite)
    (clock : W → Rat) (reply : W → (Except Exn Response × Rat) × W) (n : Nat) (st : HopState) (w : W)
    (hdesc : Descended s call st) :
    List.Forall₂ Apart (follow t s call (scripted clock reply) n st w).1
      (follow t { s with headers := fields } { call with cookies := cookies }
        (scripted clock reply) n st w).1 := by
  induction n generalizing st w with
  | zero => exact .nil
  | succ n ih =>
      cases hhost : hostOf t st.url with
      | none =>
          rw [follow_stop t _ _ _ _ st w hhost, follow_stop t _ _ _ _ st w hhost]
          exact .nil
      | some host =>
          obtain ⟨u, hu, hh⟩ := hostOf_some hhost
          rw [follow_hop t s call clock reply n st w hu hh, follow_hop t _ _ clock reply n st w hu hh]
          refine .cons ⟨rfl, ?_⟩ ?_
          · intro heq
            exact hdiff st hdesc _ (congrArg Hop.headers heq)
          · have hsettle : settle t { call with cookies := cookies } st u host
                (hopOf t { s with headers := fields } { call with cookies := cookies } st u host
                  (clock w)).2 (reply w).1.1 (reply w).1.2 =
                settle t call st u host (hopOf t s call st u host (clock w)).2 (reply w).1.1
                  (reply w).1.2 := rfl
            rw [hsettle]
            cases hnext : settle t call st u host (hopOf t s call st u host (clock w)).2
              (reply w).1.1 (reply w).1.2 with
            | inl _ => exact .nil
            | inr next => exact ih next _ (descended_settle hdesc hnext)

theorem descended_start (t : Text) (s : Session) (jar : CookieJar) (call : Call) :
    Descended s call (.start t s jar call) := ⟨rfl, fun _ hf => hf, fun _ hf _ => hf⟩

-- Secrets stay with the first host exactly when no hop leaves it, or when there
-- are none in what every hop merges again.
theorem secrets_stay_home_iff (t : Text) (s : Session) (jar : CookieJar) (call : Call)
    (clock : W → Rat) (reply : W → (Except Exn Response × Rat) × W) (w : W) :
    (∀ fields headers cookies, SameFields s.headers fields → SameHeaders call.headers headers →
        SameNames call.cookies cookies →
        List.Forall₂ (SameAbroad (hostOf t call.url)) (request t s jar call (scripted clock reply) w).1
          (request t { s with headers := fields } jar
            { call with headers := headers, cookies := cookies } (scripted clock reply) w).1) ↔
      StaysHome t s call reply w ∨ NoneRemerged s call := by
  have hdesc := descended_start t s jar call
  constructor
  · intro hall
    have hroute : ∀ {fields cookies}, SameFields s.headers fields →
        SameNames call.cookies cookies →
        (∀ st, Descended s call st → ∀ jarCookie,
          buildHeaders s st.headers st.bodyHeaders jarCookie call.cookies st.redirectSite ≠
            buildHeaders { s with headers := fields } st.headers st.bodyHeaders jarCookie cookies
              st.redirectSite) → StaysHome t s call reply w := by
      intro fields cookies hfields hcookies hdiff
      have hsame := hall fields call.headers cookies hfields (sameHeaders_refl _) hcookies
      have hapart := follow_apart (t := t) hdiff clock reply (s.maxRedirects + 1)
        (.start t s jar call) w hdesc
      have hhome := hosts_home hapart hsame
      rwa [hosts_follow] at hhome
    by_contra hneither
    rw [not_or] at hneither
    obtain ⟨hleaves, hmerged⟩ := hneither
    apply hmerged
    constructor
    · by_contra hsession
      simp only [not_or, Option.not_isSome_iff_eq_none, not_forall, Bool.not_eq_false] at hsession
      obtain ⟨hnone, field, hm, hs⟩ := hsession
      apply hleaves
      refine hroute (sameFields_mark s.headers) (List.forall₂_same.mpr fun _ _ => rfl) ?_
      intro st hst jarCookie
      have hst' : st.headers = none := by
        have hgiven := hst.given
        rw [hnone] at hgiven
        simpa using hgiven
      rw [hst']
      exact session_apart ⟨field, hm, hs⟩ _ _ _ _
    · by_contra hcookies
      simp only [not_or, not_forall, not_not] at hcookies
      obtain ⟨hne, field, hm, hname⟩ := hcookies
      apply hleaves
      refine hroute (sameFields_refl s.headers) (sameNames_mark call.cookies) ?_
      intro st hst jarCookie
      have hs : isSensitive field = false := by
        by_contra hs
        exact (sensitive_name (by simpa using hs)).2.2 hname
      exact cookies_apart hne ⟨field, hst.accepts field hm hs, hname⟩ _ _ _
  · rintro (hhome | hmerged) fields headers cookies hfields hheaders hcookies
    · apply sameAbroad_home
      · unfold request
        rw [hosts_follow, hosts_follow]
        symm
        apply route_congr
        rfl
      · unfold request
        rwa [hosts_follow]
    · refine follow_related hfields hcookies hmerged.1 hmerged.2 clock reply _ _ _ w ?_ hdesc
      exact ⟨rfl, hheaders, fun haway => (haway rfl).elim⟩

-- A redirect from one host to another, for a session with a token in its headers.
def hopText : Text where
  urlsplit url :=
    if url = "https://a.example/" then .ok ⟨"https", some "a.example", none, "/", ""⟩
    else if url = "https://b.example/" then .ok ⟨"https", some "b.example", none, "/", ""⟩
    else .error .valueError
  urljoin _ location := location
  urlencode _ := ""
  loadCookies _ := none

def answer (status : Int) (headers : List Header) : Response :=
  { statusCode := some status, httpVersion := "h2", url := "", rawHeaders := headers,
    headers := headerDict headers, raw := [], content := [] }

-- The first answer leads to the other host, the next one does not.
def movedAway (n : Nat) : (Except Exn Response × Rat) × Nat :=
  ((.ok (if n = 0 then answer 302 [("location", "https://b.example/")] else answer 200 []), 0), n + 1)

def tokenHops (token : String) : List Hop :=
  (request hopText { headers := [("authorization", token)] } .empty
    { method := "GET", url := "https://a.example/" } (scripted (fun _ => 0) movedAway) 0).1

theorem session_token_leaks :
    ¬ ∀ fields headers cookies, SameFields [("authorization", "Bearer t0ken")] fields →
      SameHeaders none headers → SameNames [] cookies →
      List.Forall₂ (SameAbroad (hostOf hopText "https://a.example/"))
        (request hopText { headers := [("authorization", "Bearer t0ken")] } .empty
          { method := "GET", url := "https://a.example/" } (scripted (fun _ => 0) movedAway) 0).1
        (request hopText { headers := fields } .empty
          { method := "GET", url := "https://a.example/", headers := headers, cookies := cookies }
          (scripted (fun _ => 0) movedAway) 0).1 := by
  intro h
  have hsame : List.Forall₂ (SameAbroad (hostOf hopText "https://a.example/"))
      (tokenHops "Bearer t0ken") (tokenHops "Bearer other") :=
    h [("authorization", "Bearer other")] none [] (.cons ⟨rfl, fun hs => absurd hs (by decide +kernel)⟩
      .nil) .none .nil
  exact absurd (sameAbroad_filter hsame) (by decide +kernel)

end NeverFox.Client
