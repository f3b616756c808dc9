import NeverFox.Client.Redirect

namespace NeverFox.Client

-- Two fields that may differ in the value of a sensitive name only.
def SameField (field field' : Header) : Prop :=
  field.1 = field'.1 ∧ (isSensitive field = false → field.2 = field'.2)

abbrev SameFields : List Header → List Header → Prop := List.Forall₂ SameField

-- Header arguments: both None, or lists that differ in secrets.
inductive SameHeaders : Option (List Header) → Option (List Header) → Prop
  | none : SameHeaders none none
  | some {fields fields' : List Header} (h : SameFields fields fields') :
      SameHeaders (some fields) (some fields')

-- The same cookie names, with other values.
abbrev SameNames : List (String × String) → List (String × String) → Prop :=
  List.Forall₂ fun c c' => c.1 = c'.1

-- Whatever goes to another host than the first is the same in both runs.
def SameAbroad (home : Option String) (hop hop' : Hop) : Prop :=
  (some hop.host ≠ home ∨ some hop'.host ≠ home) → hop = hop'

def hostOf (t : Text) (url : String) : Option String :=
  (t.urlsplit url).toOption.bind (·.hostname)

-- An outside whose answers do not depend on what is sent.
def scripted {W : Type} (clock : W → Rat) (reply : W → (Except Exn Response × Rat) × W) : Outside W :=
  ⟨clock, fun _ => reply⟩

-- Where an answer leads, if its cookies can be stored.
def nextUrl (t : Text) (call : Call) (url host : String) (answer : Except Exn Response) (now : Rat) :
    Option String :=
  match answer with
  | .error _ => none
  | .ok resp =>
      match (CookieJar.setFromResponse t.loadCookies .empty host now (setCookies resp)).2 with
      | some _ => none
      | none => (target call resp).map (t.urljoin url)

-- The hosts that a chain of replies leads to.
def route {W : Type} (t : Text) (call : Call) (reply : W → (Except Exn Response × Rat) × W) :
    Nat → String → W → List String
  | 0, _, _ => []
  | n + 1, url, w =>
      match hostOf t url with
      | none => []
      | some host =>
          host ::
            match nextUrl t call url host (reply w).1.1 (reply w).1.2 with
            | none => []
            | some url => route t call reply n url (reply w).2

theorem sameField_refl (field : Header) : SameField field field := ⟨rfl, fun _ => rfl⟩

theorem sameFields_refl (fields : List Header) : SameFields fields fields :=
  List.forall₂_same.mpr fun field _ => sameField_refl field

theorem isSensitive_congr {field field' : Header} (h : SameField field field') :
    isSensitive field = isSensitive field' := by
  simp [isSensitive, h.1]

-- Without the sensitive fields nothing is left to differ.
theorem filter_sameFields {fields fields' : List Header} (h : SameFields fields fields') :
    fields.filter (fun field => !isSensitive field) = fields'.filter fun field => !isSensitive field := by
  induction h with
  | nil => rfl
  | @cons field field' _ _ hf _ ih =>
      cases hs : isSensitive field with
      | true =>
          have hs' : isSensitive field' = true := isSensitive_congr hf ▸ hs
          simpa [hs, hs'] using ih
      | false =>
          have hs' : isSensitive field' = false := isSensitive_congr hf ▸ hs
          have heq : field = field' := Prod.ext hf.1 (hf.2 hs)
          simpa [hs, hs', heq] using ih

theorem sameFields_eq {fields fields' : List Header} (h : SameFields fields fields')
    (hn : ∀ field ∈ fields, isSensitive field = false) : fields = fields' := by
  induction h with
  | nil => rfl
  | cons hf _ ih =>
      rw [Prod.ext hf.1 (hf.2 (hn _ (by simp))), ih fun field hm => hn field (by simp [hm])]

theorem sameFields_filter {fields fields' : List Header} (h : SameFields fields fields') :
    SameFields (fields.filter fun field => !isSensitive field)
      (fields'.filter fun field => !isSensitive field) :=
  filter_sameFields h ▸ sameFields_refl _

-- Whether the jar raises over a Set-Cookie does not depend on what it holds.
theorem addMorsel_raised (jar jar' : CookieJar) (host : String) (now : Rat) (m : Morsel) :
    (CookieJar.addMorsel jar host now m).2 = (CookieJar.addMorsel jar' host now m).2 := by
  unfold CookieJar.addMorsel
  split
  · rfl
  · dsimp only
    split
    · rfl
    · split
      · rfl
      · split <;> rfl

theorem addMorsels_raised (jar jar' : CookieJar) (host : String) (now : Rat) (ms : List Morsel) :
    (CookieJar.addMorsels jar host now ms).2 = (CookieJar.addMorsels jar' host now ms).2 := by
  induction ms generalizing jar jar' with
  | nil => rfl
  | cons m rest ih =>
      have hm := addMorsel_raised jar jar' host now m
      unfold CookieJar.addMorsels
      rcases hj : CookieJar.addMorsel jar host now m with ⟨j, raised⟩
      rcases hj' : CookieJar.addMorsel jar' host now m with ⟨j', raised'⟩
      obtain rfl : raised = raised' := by simpa [hj, hj'] using hm
      cases raised with
      | none => exact ih j j'
      | some exc => rfl

theorem setFromResponse_raised (load : String → Option (List Morsel)) (jar jar' : CookieJar)
    (host : String) (now : Rat) (values : List String) :
    (CookieJar.setFromResponse load jar host now values).2 =
      (CookieJar.setFromResponse load jar' host now values).2 := by
  induction values generalizing jar jar' with
  | nil => rfl
  | cons raw rest ih =>
      have hm : (CookieJar.add load jar host now raw).2 = (CookieJar.add load jar' host now raw).2 := by
        unfold CookieJar.add
        split
        · rfl
        · exact addMorsels_raised jar jar' _ now _
      unfold CookieJar.setFromResponse
      rcases hj : CookieJar.add load jar host now raw with ⟨j, raised⟩
      rcases hj' : CookieJar.add load jar' host now raw with ⟨j', raised'⟩
      obtain rfl : raised = raised' := by simpa [hj, hj'] using hm
      cases raised with
      | none => exact ih j j'
      | some exc => rfl

variable {W : Type} {t : Text} {s : Session} {call : Call}

theorem hostOf_ok {url : String} {u : Url} (h : t.urlsplit url = .ok u) :
    hostOf t url = u.hostname := by
  simp [hostOf, h, Except.toOption]

theorem hostOf_error {url : String} {exc : Exn} (h : t.urlsplit url = .error exc) :
    hostOf t url = none := by
  simp [hostOf, h, Except.toOption]

theorem hostOf_some {url host : String} (h : hostOf t url = some host) :
    ∃ u, t.urlsplit url = .ok u ∧ u.hostname = some host := by
  cases hu : t.urlsplit url with
  | error exc => simp [hostOf_error hu] at h
  | ok u => exact ⟨u, rfl, hostOf_ok hu ▸ h⟩

-- The loop goes on exactly where the route does.
theorem nextUrl_of_settle (t : Text) (call : Call) (st : HopState) (u : Url) (host : String)
    (jar : CookieJar) (answer : Except Exn Response) (now : Rat) :
    match settle t call st u host jar answer now with
    | .inl _ => ∀ url, nextUrl t call st.url host answer now = some url → hostOf t url = none
    | .inr next => nextUrl t call st.url host answer now = some next.url := by
  unfold settle nextUrl
  cases answer with
  | error exc => nofun
  | ok resp =>
      dsimp only
      have hraised := setFromResponse_raised t.loadCookies jar .empty host now (setCookies resp)
      rcases hj : CookieJar.setFromResponse t.loadCookies jar host now (setCookies resp) with ⟨j, raised⟩
      rw [← hraised, hj]
      cases raised with
      | some exc => nofun
      | none =>
          dsimp only
          cases ht : target call resp with
          | none => nofun
          | some location =>
              dsimp only
              cases hu : t.urlsplit (t.urljoin st.url location) with
              | error exc =>
                  rintro url ⟨⟩
                  exact hostOf_error hu
              | ok new => rfl

-- A hop without a host makes no request; one with a host makes its own, and
-- those of the hop that the answer leads to.
theorem follow_stop (t : Text) (s : Session) (call : Call) (o : Outside W) (n : Nat) (st : HopState)
    (w : W) (h : hostOf t st.url = none) : (follow t s call o n st w).1 = [] := by
  cases n with
  | zero => rfl
  | succ n =>
      unfold follow
      cases hu : t.urlsplit st.url with
      | error exc => rfl
      | ok u =>
          rw [hostOf_ok hu] at h
          simp [h]

theorem follow_hop (t : Text) (s : Session) (call : Call) (clock : W → Rat)
    (reply : W → (Except Exn Response × Rat) × W) (n : Nat) (st : HopState) (w : W) {u : Url}
    {host : String} (hu : t.urlsplit st.url = .ok u) (hh : u.hostname = some host) :
    (follow t s call (scripted clock reply) (n + 1) st w).1 =
      (hopOf t s call st u host (clock w)).1 ::
        match settle t call st u host (hopOf t s call st u host (clock w)).2 (reply w).1.1
          (reply w).1.2 with
        | .inl _ => []
        | .inr next => (follow t s call (scripted clock reply) n next (reply w).2).1 := by
  rw [follow, hu]
  dsimp only
  rw [hh]
  dsimp only [scripted]
  cases settle t call st u host (hopOf t s call st u host (clock w)).2 (reply w).1.1 (reply w).1.2 <;> rfl

theorem hosts_follow (t : Text) (s : Session) (call : Call) (clock : W → Rat)
    (reply : W → (Except Exn Response × Rat) × W) (n : Nat) (st : HopState) (w : W) :
    (follow t s call (scripted clock reply) n st w).1.map Hop.host =
      route t call reply n st.url w := by
  induction n generalizing st w with
  | zero => rfl
  | succ n ih =>
      cases hhost : hostOf t st.url with
      | none =>
          rw [follow_stop t s call _ _ st w hhost, route, hhost]
          rfl
      | some host =>
          obtain ⟨u, hu, hh⟩ := hostOf_some hhost
          rw [follow_hop t s call clock reply n st w hu hh, route, hhost, List.map_cons]
          have hnext := nextUrl_of_settle t call st u host
            (hopOf t s call st u host (clock w)).2 (reply w).1.1 (reply w).1.2
          dsimp only
          congr 1
          split at hnext
          · cases hn : nextUrl t call st.url host (reply w).1.1 (reply w).1.2 with
            | none => rfl
            | some url =>
                cases n with
                | zero => rfl
                | succ n => simp [route, hnext url hn]
          · rw [hnext]
            exact ih _ (reply w).2

-- The states of two runs that differ in secrets: away from the first host the
-- header lists are the same.
structure Related (t : Text) (home : Option String) (st st' : HopState) : Prop where
  same : st' = { st with headers := st'.headers }
  headers : SameHeaders st.headers st'.headers
  abroad : hostOf t st.url ≠ home → st.headers = st'.headers

theorem sameHeaders_strip {headers headers' : Option (List Header)} (h : SameHeaders headers headers')
    (sameHost : Bool) : SameHeaders (stripHeaders headers sameHost) (stripHeaders headers' sameHost) := by
  cases h with
  | none => exact .none
  | some hf =>
      cases sameHost with
      | true => exact .some hf
      | false => exact .some (sameFields_filter hf)

theorem stripHeaders_eq {headers headers' : Option (List Header)} (h : SameHeaders headers headers') :
    stripHeaders headers false = stripHeaders headers' false := by
  cases h with
  | none => rfl
  | some hf => simp [stripHeaders, filter_sameFields hf]

theorem settle_related {home : Option String} {st st' : HopState} (h : Related t home st st')
    {u : Url} (hu : t.urlsplit st.url = .ok u) (host : String)
    (call call' : Call) (hredirects : call'.allowRedirects = call.allowRedirects) (jar : CookieJar)
    (answer : Except Exn Response) (now : Rat) :
    match settle t call st u host jar answer now, settle t call' st' u host jar answer now with
    | .inl _, .inl _ => True
    | .inr next, .inr next' => Related t home next next'
    | _, _ => False := by
  have htarget : ∀ resp, target call' resp = target call resp := by
    intro resp
    simp [target, hredirects]
  rw [h.same]
  unfold settle
  cases answer with
  | error exc => trivial
  | ok resp =>
      dsimp only
      rcases CookieJar.setFromResponse t.loadCookies jar host now (setCookies resp) with ⟨j, raised⟩
      cases raised with
      | some exc => trivial
      | none =>
          dsimp only
          rw [htarget]
          cases target call resp with
          | none => trivial
          | some location =>
              dsimp only
              cases hnew : t.urlsplit (t.urljoin st.url location) with
              | error exc => trivial
              | ok new =>
                  refine ⟨rfl, sameHeaders_strip h.headers _, ?_⟩
                  intro habroad
                  dsimp only [redirected] at habroad ⊢
                  by_cases hsame : new.hostname = u.hostname
                  · have heq : st.headers = st'.headers := by
                      apply h.abroad
                      rwa [hostOf_ok hu, ← hsame, ← hostOf_ok hnew]
                    rw [heq]
                  · simp only [hsame, decide_false]
                    exact stripHeaders_eq h.headers

-- Whatever may differ does not get into the request of a hop.
theorem buildHeaders_eq {fields : List Header} {cookies : List (String × String)}
    (hfields : SameFields s.headers fields) (hcookies : SameNames call.cookies cookies)
    (headers : Option (List Header)) (bodyHeaders : List Header) (jarCookie : String)
    (site : Option String)
    (hheaders : headers.isSome ∨ ∀ field ∈ s.headers, isSensitive field = false)
    (hplace : call.cookies = [] ∨
      ∀ field ∈ baseHeaders s headers, PyText.lower field.1 ≠ "accept-encoding") :
    buildHeaders { s with headers := fields } headers bodyHeaders jarCookie cookies site =
      buildHeaders s headers bodyHeaders jarCookie call.cookies site := by
  have hbase : baseHeaders { s with headers := fields } headers = baseHeaders s headers := by
    cases headers with
    | some _ => rfl
    | none => exact (sameFields_eq hfields (hheaders.resolve_left (by simp))).symm
  unfold buildHeaders
  rw [hbase]
  rcases hplace with hnone | hplace
  · have hnone' : cookies = [] := by
      rw [hnone] at hcookies
      exact List.forall₂_nil_left_iff.mp hcookies
    rw [hnone, hnone']
  · congr 1
    apply List.flatMap_congr
    intro field hf
    simp [navigated, hplace field hf]

-- The header list of a later hop comes from the caller's, or from the session.
structure Descended (s : Session) (call : Call) (st : HopState) : Prop where
  given : st.headers.isSome = call.headers.isSome
  base : ∀ field ∈ baseHeaders s st.headers, field ∈ baseHeaders s call.headers
  accepts : ∀ field ∈ baseHeaders s call.headers, isSensitive field = false →
    field ∈ baseHeaders s st.headers

theorem descended_settle {st next : HopState} (h : Descended s call st) {u : Url} {host : String}
    {jar : CookieJar} {answer : Except Exn Response} {now : Rat}
    (hnext : settle t call st u host jar answer now = .inr next) : Descended s call next := by
  have hstrip : ∃ sameHost, next.headers = stripHeaders st.headers sameHost := by
    unfold settle at hnext
    split at hnext
    · cases hnext
    · split at hnext
      · cases hnext
      · split at hnext
        · cases hnext
        · dsimp only at hnext
          split at hnext
          · cases hnext
          · obtain rfl := Sum.inr.inj hnext
            exact ⟨_, rfl⟩
  obtain ⟨sameHost, hheaders⟩ := hstrip
  cases hst : st.headers with
  | none =>
      have hnone : next.headers = st.headers := by simp [hheaders, hst, stripHeaders]
      exact ⟨hnone ▸ h.given, hnone ▸ h.base, hnone ▸ h.accepts⟩
  | some fields =>
      have hgiven := h.given
      have hbase := h.base
      have haccepts := h.accepts
      rw [hst] at hgiven hbase haccepts
      cases sameHost with
      | true =>
          have hsame : next.headers = some fields := by simp [hheaders, hst, stripHeaders]
          exact ⟨hsame ▸ hgiven, hsame ▸ hbase, hsame ▸ haccepts⟩
      | false =>
          have hfiltered : next.headers = some (fields.filter fun field => !isSensitive field) := by
            simp [hheaders, hst, stripHeaders]
          refine ⟨hfiltered ▸ hgiven, ?_, ?_⟩ <;> rw [hfiltered] <;> intro field hf
          · exact hbase field (List.mem_of_mem_filter hf)
          · intro hs
            exact List.mem_filter.mpr ⟨haccepts field hf hs, by simp [hs]⟩

section Runs

variable {fields : List Header} {headers : Option (List Header)} {cookies : List (String × String)}

-- Two runs that differ in secrets send the same to every other host.
theorem follow_related {home : Option String} (hfields : SameFields s.headers fields)
    (hcookies : SameNames call.cookies cookies)
    (hheaders : call.headers.isSome ∨ ∀ field ∈ s.headers, isSensitive field = false)
    (hplace : call.cookies = [] ∨
      ∀ field ∈ baseHeaders s call.headers, PyText.lower field.1 ≠ "accept-encoding")
    (clock : W → Rat) (reply : W → (Except Exn Response × Rat) × W) (n : Nat) (st st' : HopState)
    (w : W) (hrel : Related t home st st') (hdesc : Descended s call st) :
    List.Forall₂ (SameAbroad home) (follow t s call (scripted clock reply) n st w).1
      (follow t { s with headers := fields } { call with headers := headers, cookies := cookies }
        (scripted clock reply) n st' w).1 := by
  induction n generalizing st st' w with
  | zero => exact .nil
  | succ n ih =>
      have hurl : st'.url = st.url := by rw [hrel.same]
      cases hhost : hostOf t st.url with
      | none =>
          rw [follow_stop t _ _ _ _ st w hhost, follow_stop t _ _ _ _ st' w (hurl ▸ hhost)]
          exact .nil
      | some host =>
          obtain ⟨u, hu, hh⟩ := hostOf_some hhost
          rw [follow_hop t s call clock reply n st w hu hh,
            follow_hop t _ _ clock reply n st' w (hurl ▸ hu) hh]
          have hjar : (hopOf t { s with headers := fields }
              { call with headers := headers, cookies := cookies } st' u host (clock w)).2 =
              (hopOf t s call st u host (clock w)).2 := by
            rw [hrel.same]
            rfl
          have hsettle := settle_related hrel hu host call
            { call with headers := headers, cookies := cookies } rfl
            (hopOf t s call st u host (clock w)).2 (reply w).1.1 (reply w).1.2
          rw [hjar]
          constructor
          · intro haway
            have habroad : st.headers = st'.headers :=
              hrel.abroad (by rw [hhost]; exact haway.elim id id)
            have hst : st' = st := by rw [hrel.same, ← habroad]
            have hbuild := buildHeaders_eq hfields hcookies st.headers st.bodyHeaders
              (CookieJar.headerFor st.jar host (requestPath t u st.params) (u.scheme = "https")
                (clock w)).1 st.redirectSite
              (hheaders.imp_left fun hg => hdesc.given ▸ hg)
              (hplace.imp_right fun hp field hf => hp field (hdesc.base field hf))
            rw [hst]
            simp only [hopOf, hbuild]
          · split at hsettle
            · rename_i heq heq'
              rw [heq, heq']
              exact .nil
            · rename_i next next' heq heq'
              rw [heq, heq']
              exact ih next next' _ hsettle (descended_settle hdesc heq)
            · exact hsettle.elim

end Runs

end NeverFox.Client
