import NeverFox.Client.Cookies
import NeverFox.Client.SendOnce

namespace NeverFox.Client

-- What urlsplit gives of a URL.
structure Url where
  scheme : String
  hostname : Option String
  port : Option Nat
  path : String
  query : String
  deriving DecidableEq

-- The functions of the standard library that take texts apart and put them together.
structure Text where
  urlsplit : String → Except Exn Url
  urljoin : String → String → String
  urlencode : List (String × String) → String
  loadCookies : String → Option (List Morsel)

inductive Data
  | none
  | form (fields : List (String × String))
  | text (content : String)
  | raw (body : Body)

-- The arguments of `request`; `json` is the document already dumped, and
-- `proxy` the argument already parsed.
structure Call where
  method : String
  url : String
  headers : Option (List Header) := none
  data : Data := .none
  json : Option String := none
  params : List (String × String) := []
  cookies : List (String × String) := []
  timeout : Nat := 15
  allowRedirects : Bool := true
  proxy : Option Proxy := none

def utf8 (text : String) : Bytes := text.toUTF8.data.toList

-- `_prepare_body`.
def prepareBody (t : Text) (data : Data) (json : Option String) : Body × List Header :=
  match json with
  | some document => (.bytes (utf8 document), [("content-type", "application/json")])
  | none =>
      match data with
      | .none => (.bytes [], [])
      | .form fields =>
          (.bytes (utf8 (t.urlencode fields)), [("content-type", "application/x-www-form-urlencoded")])
      | .text content => (.bytes (utf8 content), [])
      | .raw body => (body, [])

def isStripped (c : Char) : Bool := c = ';' || c = ' '

def cookiePair (c : String × String) : String := s!"{c.1}={c.2}"

-- The cookies= pairs go behind the jar's.
def cookieHeader (jarCookie : String) (cookies : List (String × String)) : String :=
  if cookies = [] then jarCookie
  else
    let extra := "; ".intercalate (cookies.map cookiePair)
    if jarCookie = "" then extra
    else String.ofList (PyText.strip isStripped (jarCookie ++ "; " ++ extra).toList)

-- What one field of the base list becomes in a request.
def navigated (cookie : String) (redirectSite : Option String) (field : Header) : List Header :=
  let name := PyText.lower field.1
  if redirectSite.isSome ∧ name = "sec-fetch-user" then []
  else
    (field.1, if name = "sec-fetch-site" then redirectSite.getD field.2 else field.2) ::
      if name = "accept-encoding" ∧ cookie ≠ "" then [("cookie", cookie)] else []

def baseHeaders (s : Session) (headers : Option (List Header)) : List Header :=
  headers.getD s.headers

-- `_build_headers`, given what the jar selects.
def buildHeaders (s : Session) (headers : Option (List Header)) (bodyHeaders : List Header)
    (jarCookie : String) (cookies : List (String × String)) (redirectSite : Option String) :
    List Header :=
  (baseHeaders s headers).flatMap (navigated (cookieHeader jarCookie cookies) redirectSite) ++
    bodyHeaders

-- The last two labels of a host.
def regDomain (host : Option String) : List (List Char) :=
  let labels := ((host.getD "").toList).splitOn '.'
  labels.drop (labels.length - 2)

def urlPort (u : Url) : Nat :=
  match u.port with
  | some (port + 1) => port + 1
  | _ => if u.scheme = "https" then 443 else 80

def secFetchSite (scheme : String) (host : Option String) (port : Nat) (new : Url) : String :=
  if (scheme, host, port) = (new.scheme, new.hostname, urlPort new) then "same-origin"
  else if regDomain host = regDomain new.hostname then "same-site"
  else "cross-site"

def SENSITIVE_ON_REDIRECT : List String := ["authorization", "cookie", "proxy-authorization"]

def isSensitive (field : Header) : Bool := PyText.lower field.1 ∈ SENSITIVE_ON_REDIRECT

-- The variables of `request` that one hop hands to the next.
structure HopState where
  method : String
  url : String
  headers : Option (List Header)
  body : Body
  bodyHeaders : List Header
  params : List (String × String)
  redirectSite : Option String
  jar : CookieJar

def mergeParams (session call : List (String × String)) : List (String × String) :=
  ((session ++ call).foldl (fun d param => d.set param.1 param.2) (Dict.empty : Dict String String)).entries

def HopState.start (t : Text) (s : Session) (jar : CookieJar) (call : Call) : HopState :=
  let prepared := prepareBody t call.data call.json
  { method := PyText.upper call.method, url := call.url, headers := call.headers,
    body := prepared.1, bodyHeaders := prepared.2, params := mergeParams s.params call.params,
    redirectSite := none, jar := jar }

def authority (host : String) (port : Nat) : String :=
  if port = 443 ∨ port = 80 then host else s!"{host}:{port}"

def requestPath (t : Text) (u : Url) (params : List (String × String)) : String :=
  let path := if u.path = "" then "/" else u.path
  let path := if u.query = "" then path else path ++ "?" ++ u.query
  if params = [] then path
  else path ++ (if '?' ∈ path.toList then "&" else "?") ++ t.urlencode params

-- The request of one hop, and the jar it leaves.
def hopOf (t : Text) (s : Session) (call : Call) (st : HopState) (u : Url) (host : String)
    (now : Rat) : Hop × CookieJar :=
  let path := requestPath t u st.params
  let selected := CookieJar.headerFor st.jar host path (u.scheme = "https") now
  ({ method := st.method, host := host, port := urlPort u, path := path,
      authority := authority host (urlPort u),
      headers := buildHeaders s st.headers st.bodyHeaders selected.1 call.cookies st.redirectSite,
      body := st.body, timeout := call.timeout, scheme := u.scheme, url := st.url,
      proxy := call.proxy.or s.proxy }, selected.2)

def isRedirect (status : Option Int) : Bool :=
  status ∈ [some 301, some 302, some 303, some 307, some 308]

-- Only a list that is not empty is filtered, and only when the host changes.
def stripHeaders (headers : Option (List Header)) (sameHost : Bool) : Option (List Header) :=
  headers.map fun fields => if sameHost then fields else fields.filter fun field => !isSensitive field

def rewritesMethod (method : String) (status : Option Int) : Bool :=
  (method = "POST" || (status = some 303 && (method = "PUT" || method = "PATCH"))) &&
    status ∈ [some 301, some 302, some 303]

-- The state of the hop behind a redirect.
def redirected (st : HopState) (u new : Url) (url : String) (status : Option Int)
    (jar : CookieJar) : HopState :=
  let dropped := rewritesMethod st.method status
  { method := if dropped then "GET" else st.method
    url := url
    headers := stripHeaders st.headers (new.hostname = u.hostname)
    body := if dropped then .bytes [] else st.body
    bodyHeaders := if dropped then [] else st.bodyHeaders
    params := []
    redirectSite := some (secFetchSite u.scheme u.hostname (urlPort u) new)
    jar := jar }

-- What lies outside the loop: the clock, and what a hop comes to, with the
-- time at which it did.
structure Outside (W : Type) where
  clock : W → Rat
  send : Hop → W → (Except Exn Response × Rat) × W

def setCookies (resp : Response) : List String :=
  (resp.rawHeaders.filter fun field => PyText.lower field.1 = "set-cookie").map Prod.snd

-- The location that a response is followed to.
def target (call : Call) (resp : Response) : Option String :=
  if call.allowRedirects && isRedirect resp.statusCode then resp.headers.get? "location" else none

-- The loop body behind the send: the loop ends, or goes on in another state.
def settle (t : Text) (call : Call) (st : HopState) (u : Url) (host : String) (jar : CookieJar)
    (answer : Except Exn Response) (now : Rat) : Except Exn Response ⊕ HopState :=
  match answer with
  | .error exc => .inl (.error exc)
  | .ok resp =>
      match CookieJar.setFromResponse t.loadCookies jar host now (setCookies resp) with
      | (_, some exc) => .inl (.error exc)
      | (jar, none) =>
          match target call resp with
          | none => .inl (.ok resp)
          | some location =>
              let url := t.urljoin st.url location
              match t.urlsplit url with
              | .error exc => .inl (.error exc)
              | .ok new => .inr (redirected st u new url resp.statusCode jar)

variable {W : Type}

-- The loop over the hops: the requests it makes and how it ends. `Session` and
-- `AsyncSession` have the same one.
def follow (t : Text) (s : Session) (call : Call) (o : Outside W) :
    Nat → HopState → W → List Hop × Except Exn Response × W
  | 0, _, w => ([], .error (.httpError s!"too many redirects ({s.maxRedirects})"), w)
  | n + 1, st, w =>
      match t.urlsplit st.url with
      | .error exc => ([], .error exc, w)
      | .ok u =>
          match u.hostname with
          | none => ([], .error .attributeError, w)
          | some host =>
              let (hop, jar) := hopOf t s call st u host (o.clock w)
              let ((answer, now), w) := o.send hop w
              match settle t call st u host jar answer now with
              | .inl result => ([hop], result, w)
              | .inr next =>
                  let (hops, result) := follow t s call o n next w
                  (hop :: hops, result)

def request (t : Text) (s : Session) (jar : CookieJar) (call : Call) (o : Outside W) (w : W) :
    List Hop × Except Exn Response × W :=
  follow t s call o (s.maxRedirects + 1) (.start t s jar call) w

-- The outside of a session: its own `_do_hop`, over the network.
def overNet {ε δ : Type} (mode : Mode) (s : Session) (net : Net W ε δ) (clock : W → Rat) :
    Outside (Run W) where
  clock r := clock r.world
  send hop r :=
    let (answer, r) := doHop mode s net hop r
    ((answer, clock r.world), r)

end NeverFox.Client
