import NeverFox.Client.Copies

namespace NeverFox.Client.Copies

variable {W : Type}

-- One hop of a request and what it came to.
structure Leg where
  hop : Hop
  answer : Except Raised (Option Response)

def Leg.status (leg : Leg) : Option Int :=
  match leg.answer with
  | .ok (some resp) => resp.statusCode
  | _ => none

-- The loop body of `request` in front of `_do_hop`.
def depart (env : Env W) (s : Session) (call : Call) (v : Vars) (σ : Shared W) :
    Except Exn (Url × Hop × Shared W) :=
  match env.text.urlsplit v.url with
  | .error exc => .error exc
  | .ok u =>
      match u.hostname with
      | none => .error .attributeError
      | some host =>
          let port := urlPort u
          let path := requestPath env.text u v.params
          let (hdrs, σ) := env.headersFor s v.headers v.bodyHeaders host path u.scheme call.cookies
            v.redirectSite σ
          .ok (u, ⟨v.method, host, port, path, authority host port, hdrs, v.body, call.timeout, u.scheme,
            v.url, call.proxy.or s.proxy⟩, σ)

-- And behind it: the loop ends, or goes on with other variables.
def arrive (env : Env W) (call : Call) (v : Vars) (history : List Reply) (u : Url) (hop : Hop)
    (answer : Except Raised (Option Response)) (σ : Shared W) :
    (Except Raised (Reply × List Reply) ⊕ Vars × List Reply) × Shared W :=
  match answer with
  | .error raised => (.inl (.error raised), σ)
  | .ok none => (.inl (.error (.exn .attributeError)), σ)
  | .ok (some resp) =>
      let resp := { resp with url := v.url }
      match env.storeCookies hop.host (setCookies resp) σ with
      | (some exc, σ) => (.inl (.error (.exn exc)), σ)
      | (none, σ) =>
          let reply : Reply := ⟨resp, asDict σ.jar⟩
          let σ := σ.noteAltsvc hop.host resp.headers
          match target call resp with
          | none => (.inl (.ok (reply, history)), σ)
          | some location =>
              let url := env.text.urljoin v.url location
              match env.text.urlsplit url with
              | .error exc => (.inl (.error (.exn exc)), σ)
              | .ok new =>
                  let dropped := rewritesMethod v.method resp.statusCode
                  (.inr ({ method := if dropped then "GET" else v.method
                           url := url
                           headers := stripHeaders v.headers (new.hostname = some hop.host)
                           body := if dropped then .bytes [] else v.body
                           bodyHeaders := if dropped then [] else v.bodyHeaders
                           params := []
                           redirectSite := some (secFetchSite u.scheme (some hop.host) hop.port new) },
                    history ++ [reply]), σ)

-- The loop of `request`, over any `_do_hop`, with the legs it makes.
def journey (send : Hop → Shared W → Except Raised (Option Response) × Shared W) (env : Env W)
    (s : Session) (counts : Counts) (call : Call) :
    Nat → Vars → List Reply → Shared W → List Leg × Except Raised (Reply × List Reply) × Shared W
  | 0, _, _, σ =>
      ([], .error (.exn (.httpError s!"too many redirects ({counts.maxRedirects})")), σ)
  | n + 1, v, history, σ =>
      match depart env s call v σ with
      | .error exc => ([], .error (.exn exc), σ)
      | .ok (u, hop, σ) =>
          let (answer, σ) := send hop σ
          match arrive env call v history u hop answer σ with
          | (.inl result, σ) => ([⟨hop, answer⟩], result, σ)
          | (.inr (v, history), σ) =>
              let (legs, result) := journey send env s counts call n v history σ
              (⟨hop, answer⟩ :: legs, result)

def Vars.start (env : Env W) (s : Session) (call : Call) : Vars :=
  let (body, bodyHeaders) := prepareBody env.text call.data call.json
  { method := PyText.upper call.method, url := call.url, headers := call.headers, body := body,
    bodyHeaders := bodyHeaders, params := mergeParams s.params call.params }

def Sync.legs (env : Env W) (s : Session) (counts : Counts) (call : Call) (σ : Shared W) : List Leg :=
  (journey (Sync.doHop env s counts) env s counts call (counts.maxRedirects + 1).toNat
    (.start env s call) [] σ).1

def Async.legs (env : Env W) (s : Session) (counts : Counts) (call : Call) (σ : Shared W) : List Leg :=
  (journey (Async.doHop env s counts) env s counts call (counts.maxRedirects + 1).toNat
    (.start env s call) [] σ).1

theorem sync_follow_eq (env : Env W) (s : Session) (counts : Counts) (call : Call) (n : Nat) (v : Vars)
    (history : List Reply) (σ : Shared W) :
    Sync.follow env s counts call n v history σ =
      (journey (Sync.doHop env s counts) env s counts call n v history σ).2 := by
  induction n generalizing v history σ with
  | zero => rfl
  | succ n ih =>
      unfold Sync.follow journey depart
      cases env.text.urlsplit v.url with
      | error exc => rfl
      | ok u =>
          dsimp only
          cases u.hostname with
          | none => rfl
          | some host =>
              dsimp only
              rcases env.headersFor s v.headers v.bodyHeaders host (requestPath env.text u v.params)
                u.scheme call.cookies v.redirectSite σ with ⟨hdrs, τ⟩
              dsimp only
              rcases Sync.doHop env s counts _ τ with ⟨answer, τ⟩
              unfold arrive
              rcases answer with raised | resp | resp
              · rfl
              · rfl
              · dsimp only
                rcases env.storeCookies host (setCookies { resp with url := v.url }) τ with ⟨raised, τ⟩
                cases raised with
                | some exc => rfl
                | none =>
                    dsimp only
                    cases target call { resp with url := v.url } with
                    | none => rfl
                    | some location =>
                        dsimp only
                        cases env.text.urlsplit (env.text.urljoin v.url location) with
                        | error exc => rfl
                        | ok new => exact ih _ _ _

theorem async_follow_eq (env : Env W) (s : Session) (counts : Counts) (call : Call) (n : Nat) (v : Vars)
    (history : List Reply) (σ : Shared W) :
    Async.follow env s counts call n v history σ =
      (journey (Async.doHop env s counts) env s counts call n v history σ).2 := by
  induction n generalizing v history σ with
  | zero => rfl
  | succ n ih =>
      unfold Async.follow journey depart
      cases env.text.urlsplit v.url with
      | error exc => rfl
      | ok u =>
          dsimp only
          cases u.hostname with
          | none => rfl
          | some host =>
              dsimp only
              rcases env.headersFor s v.headers v.bodyHeaders host (requestPath env.text u v.params)
                u.scheme call.cookies v.redirectSite σ with ⟨hdrs, τ⟩
              dsimp only
              rcases Async.doHop env s counts _ τ with ⟨answer, τ⟩
              unfold arrive
              rcases answer with raised | resp | resp
              · rfl
              · rfl
              · dsimp only
                rcases env.storeCookies host (setCookies { resp with url := v.url }) τ with ⟨raised, τ⟩
                cases raised with
                | some exc => rfl
                | none =>
                    dsimp only
                    cases target call { resp with url := v.url } with
                    | none => rfl
                    | some location =>
                        dsimp only
                        cases env.text.urlsplit (env.text.urljoin v.url location) with
                        | error exc => rfl
                        | ok new => exact ih _ _ _

-- Both copies of `request` go through their legs.
theorem sync_request_eq (env : Env W) (s : Session) (counts : Counts) (call : Call) (σ : Shared W) :
    Sync.request env s counts call σ =
      (journey (Sync.doHop env s counts) env s counts call (counts.maxRedirects + 1).toNat
        (.start env s call) [] σ).2 := sync_follow_eq env s counts call _ _ [] σ

theorem async_request_eq (env : Env W) (s : Session) (counts : Counts) (call : Call) (σ : Shared W) :
    Async.request env s counts call σ =
      (journey (Async.doHop env s counts) env s counts call (counts.maxRedirects + 1).toNat
        (.start env s call) [] σ).2 := async_follow_eq env s counts call _ _ [] σ

-- What the hop of a leg is made of.
structure Leg.Departs (leg : Leg) (env : Env W) (s : Session) (call : Call) (v : Vars) : Prop where
  method : leg.hop.method = v.method
  body : leg.hop.body = v.body
  headers : ∃ line, leg.hop.headers = buildHeaders s v.headers v.bodyHeaders line call.cookies v.redirectSite
  url : ∃ u, env.text.urlsplit v.url = .ok u ∧ u.hostname = some leg.hop.host ∧
    leg.hop.scheme = u.scheme ∧ leg.hop.port = urlPort u ∧
    leg.hop.authority = authority leg.hop.host leg.hop.port

-- What the next leg starts from.
structure Leg.Arrives (leg : Leg) (v next : Vars) : Prop where
  method : next.method = if rewritesMethod v.method leg.status then "GET" else v.method
  body : next.body = if rewritesMethod v.method leg.status then .bytes [] else v.body
  bodyHeaders : next.bodyHeaders = if rewritesMethod v.method leg.status then [] else v.bodyHeaders
  headers : ∃ sameHost, next.headers = stripHeaders v.headers sameHost

theorem depart_eq_ok {env : Env W} {s : Session} {call : Call} {v : Vars} {σ τ : Shared W} {u : Url}
    {hop : Hop} (h : depart env s call v σ = .ok (u, hop, τ)) (answer : Except Raised (Option Response)) :
    Leg.Departs ⟨hop, answer⟩ env s call v := by
  unfold depart at h
  cases hu : env.text.urlsplit v.url with
  | error exc => rw [hu] at h; cases h
  | ok u =>
      rw [hu] at h
      dsimp only at h
      cases hhost : u.hostname with
      | none => rw [hhost] at h; cases h
      | some host =>
          rw [hhost] at h
          cases h
          exact ⟨rfl, rfl, ⟨_, rfl⟩, u, hu, hhost, rfl, rfl, rfl⟩

theorem arrive_eq_inr {env : Env W} {call : Call} {v next : Vars} {history replies : List Reply} {u : Url}
    {hop : Hop} {answer : Except Raised (Option Response)} {σ τ : Shared W}
    (h : arrive env call v history u hop answer σ = (.inr (next, replies), τ)) :
    Leg.Arrives ⟨hop, answer⟩ v next := by
  unfold arrive at h
  rcases answer with raised | resp | resp
  · cases h
  · cases h
  · dsimp only at h
    rcases hstore : env.storeCookies hop.host (setCookies { resp with url := v.url }) σ with ⟨raised, σ'⟩
    rw [hstore] at h
    cases raised with
    | some exc => cases h
    | none =>
        dsimp only at h
        cases htarget : target call { resp with url := v.url } with
        | none => rw [htarget] at h; cases h
        | some location =>
            rw [htarget] at h
            dsimp only at h
            cases hnew : env.text.urlsplit (env.text.urljoin v.url location) with
            | error exc => rw [hnew] at h; cases h
            | ok new =>
                rw [hnew] at h
                cases h
                exact ⟨rfl, rfl, rfl, _, rfl⟩

-- No leg, a last one, or one that another journey follows.
theorem journey_cases (send : Hop → Shared W → Except Raised (Option Response) × Shared W) (env : Env W)
    (s : Session) (counts : Counts) (call : Call) (n : Nat) (v : Vars) (history : List Reply)
    (σ : Shared W) :
    (journey send env s counts call n v history σ).1 = [] ∨
    ∃ leg rest, (journey send env s counts call n v history σ).1 = leg :: rest ∧
      leg.Departs env s call v ∧
      (rest = [] ∨ ∃ m next replies τ, n = m + 1 ∧ leg.Arrives v next ∧
        rest = (journey send env s counts call m next replies τ).1) := by
  cases n with
  | zero => exact .inl rfl
  | succ n =>
      rw [journey]
      cases hd : depart env s call v σ with
      | error exc => exact .inl rfl
      | ok parts =>
          obtain ⟨u, hop, τ⟩ := parts
          dsimp only
          rcases send hop τ with ⟨answer, τ⟩
          have hdeparts := depart_eq_ok hd answer
          dsimp only
          rcases ha : arrive env call v history u hop answer τ with ⟨result | ⟨next, replies⟩, τ'⟩
          · exact .inr ⟨_, _, rfl, hdeparts, .inl rfl⟩
          · exact .inr ⟨_, _, rfl, hdeparts, .inr ⟨n, next, replies, τ', rfl, arrive_eq_inr ha, rfl⟩⟩

-- An environment that answers from a script, and is late when the script has ended.
def scripted (urlsplit : String → Except Exn Url) : Env (List RawResponse) where
  text := ⟨urlsplit, fun _ location => location, fun _ => "", fun _ => some []⟩
  codecs := ⟨fun _ _ _ => .error .zlibError, fun _ => .error .otherError, fun _ _ => .error .otherError⟩
  isdigit text := text ≠ "" && text.toList.all fun c => PyText.isDigit 10 c || c = '²'
  oneTimeout := true
  time _ := 0
  monotonic _ := 0
  uniform low _ script := (low, script)
  sleep _ script := script
  bundled _ := false
  h3 _ script := (.error .otherError, script)
  transport _ script :=
    match script with
    | [] => (.timeout, [])
    | raw :: rest => (.response "h2" raw, rest)

-- A session before its first request.
def fresh (script : List RawResponse) : Shared (List RawResponse) :=
  { world := script, jar := .empty, limiter := ⟨0, .empty⟩ }

end NeverFox.Client.Copies
