import NeverFox.Client.Response
import NeverFox.H2.Request
import NeverFox.Http1.Request

namespace NeverFox.Client

structure Proxy where
  scheme : String
  host : String
  port : Nat
  user : String
  password : String
  deriving DecidableEq

-- The h3 argument: False, True or anything else.
inductive H3Setting
  | off
  | on
  | auto
  deriving DecidableEq

-- What Session.__init__ stores and a request reads.
structure Session where
  headers : List Header
  h3 : H3Setting := .auto
  proxy : Option Proxy := none
  params : List (String × String) := []
  maxConns : Nat := 6
  maxRedirects : Nat := 20
  retries : Nat := 3
  backoffRetries : Nat := 2
  maxResponseBytes : Option Nat := none

-- The arguments of `_do_hop` and `_send_once`.
structure Hop where
  method : String
  host : String
  port : Nat
  path : String
  authority : String
  headers : List Header
  body : Body
  timeout : Nat
  scheme : String
  url : String
  proxy : Option Proxy
  deriving DecidableEq

-- `AsyncSession` has its own copy of both loops.
inductive Mode
  | sync
  | async

def IDEMPOTENT : List String := ["GET", "HEAD", "PUT", "DELETE", "OPTIONS", "TRACE"]

-- A connection with its caller's reference, and what happens on it during the request.
structure Lease (ε δ : Type) where
  conn : H2.Conn ε δ
  wait : List H2.Event
  late : List H2.Event

inductive Handle (ε δ : Type)
  | http1 (tp : Http1.Exchange)
  | h2 (lease : Lease ε δ)

-- A neqo-client process that could not be started, or what its run came to.
inductive H3Run
  | unlaunched (exc : Exn)
  | launched (answer : Except Exn RawResponse)

-- The world outside the session: every call reads it and leaves another one.
structure Net (W ε δ : Type) where
  hpack : H2.Hpack ε δ
  codecs : Codecs
  bundled : W → Bool
  known : String → W → Bool
  runH3 : Hop → W → H3Run × W
  existingConn : Hop → W → Option (Lease ε δ) × W
  getConn : Hop → W → Except Exn (Handle ε δ) × W
  isdigit : String → Bool
  uniform : Rat → Rat → W → Rat × W
  sleep : Rat → W → W

inductive Backend
  | h3
  | http1
  | h2
  deriving DecidableEq

-- The request handed to a backend, and what came of it.
structure Transmission where
  backend : Backend
  answer : Except Exn RawResponse
  deriving DecidableEq

structure Run (W : Type) where
  world : W
  sent : List Transmission := []

variable {W ε δ : Type}

def shouldTryH3 (s : Session) (net : Net W ε δ) (hop : Hop) (w : W) : Bool :=
  if s.h3 = .off ∨ hop.port ≠ 443 ∨ net.bundled w = false then false
  else s.h3 = .on || net.known hop.host w

-- `h3.request`: the launch is behind two checks.
def h3Request (net : Net W ε δ) (hop : Hop) (w : W) : H3Run × W :=
  if net.bundled w = false then (.unlaunched (.runtimeError "neqo-client not bundled"), w)
  else if hop.body.truthy then
    (.unlaunched (.runtimeError "h3 request body not supported; fall back to h2"), w)
  else net.runH3 hop w

def h3Url (hop : Hop) : String := s!"https://{hop.authority}{hop.path}"

-- The attempt in front of the transport loop. Whatever goes wrong is dropped.
def tryH3 (s : Session) (net : Net W ε δ) (hop : Hop) (r : Run W) : Option Response × Run W :=
  if hop.scheme = "https" ∧ hop.proxy = none ∧ shouldTryH3 s net hop r.world then
    match h3Request net hop r.world with
    | (.unlaunched _, w) => (none, { r with world := w })
    | (.launched answer, w) =>
        let r := { world := w, sent := r.sent ++ [⟨.h3, answer⟩] }
        match answer.bind fun raw => Response.make net.codecs raw "h3" (h3Url hop) 0 with
        | .ok resp => (some resp, r)
        | .error _ => (none, r)
  else (none, r)

def maxBytes (s : Session) : Nat := s.maxResponseBytes.getD 0

def responseUrl (mode : Mode) (hop : Hop) : String :=
  match mode with
  | .sync => s!"{hop.scheme}://{hop.authority}{hop.path}"
  | .async => hop.url

-- The async copy looks for a warm connection first.
def obtain (mode : Mode) (net : Net W ε δ) (hop : Hop) (w : W) : Except Exn (Handle ε δ) × W :=
  match mode with
  | .sync => net.getConn hop w
  | .async =>
      match net.existingConn hop w with
      | (some lease, w) => (.ok (.h2 lease), w)
      | (none, w) => net.getConn hop w

def sendArgs (s : Session) (hop : Hop) : H2.SendArgs where
  method := hop.method
  path := hop.path
  authority := hop.authority
  headers := hop.headers.map fun field => (some field.1, field.2)
  body := hop.body
  maxBytes := maxBytes s

-- `http1.request`, which always ends.
def http1Request (tp : Http1.Exchange) (hop : Hop) : Except Exn RawResponse :=
  (Http1.request tp hop.method hop.path hop.authority hop.headers hop.body).getD (.error .otherError)

-- One pass of the try block. The request counts as sent once a write is reached.
def attempt (mode : Mode) (s : Session) (net : Net W ε δ) (hop : Hop) (r : Run W) :
    Except Exn Response × Run W :=
  match obtain mode net hop r.world with
  | (.error exc, w) => (.error exc, { r with world := w })
  | (.ok (.http1 tp), w) =>
      let answer := http1Request tp hop
      let news := if (Http1.octets hop.body).isSome then [⟨.http1, answer⟩] else []
      (answer.bind fun raw =>
          Response.make net.codecs raw "http/1.1" (responseUrl mode hop) (maxBytes s),
        { world := w, sent := r.sent ++ news })
  | (.ok (.h2 lease), w) =>
      let args := sendArgs s hop
      let answer := (lease.conn.request net.hpack args hop.timeout lease.wait lease.late).1
      let news := if lease.conn.writes net.hpack args then [⟨.h2, answer⟩] else []
      (answer.bind fun raw => Response.make net.codecs raw "h2" (responseUrl mode hop) (maxBytes s),
        { world := w, sent := r.sent ++ news })

-- A timeout is raised at once, another connection error tried again.
def retryable : Exn → Bool
  | .timeoutError _ => false
  | exc => exc.isIOError

def attempts (mode : Mode) (s : Session) (net : Net W ε δ) (hop : Hop) :
    Nat → Exn → Run W → Except Exn Response × Run W
  | 0, last, r => (.error last, r)
  | n + 1, _, r =>
      match attempt mode s net hop r with
      | (.ok resp, r) => (.ok resp, r)
      | (.error exc, r) =>
          if retryable exc then attempts mode s net hop n exc r else (.error exc, r)

def attemptCount (s : Session) (hop : Hop) : Nat :=
  max 1 (if hop.method ∈ IDEMPOTENT then s.retries else 1)

-- `last` starts as None, which cannot be raised.
def sendOnce (mode : Mode) (s : Session) (net : Net W ε δ) (hop : Hop) (r : Run W) :
    Except Exn Response × Run W :=
  match tryH3 s net hop r with
  | (some resp, r) => (.ok resp, r)
  | (none, r) => attempts mode s net hop (attemptCount s hop) .typeError r

def busy (status : Option Int) : Bool := status = some 429 ∨ status = some 503

-- `_retry_after`: isdigit() admits characters that int() does not.
def retryAfter (isdigit : String → Bool) (uniform : Rat → Rat → W → Rat × W)
    (headers : Dict String String) (attempt : Nat) (w : W) : Except Exn Rat × W :=
  let ra := (headers.get? "retry-after").getD ""
  if isdigit ra then
    (match PyText.intOfStr 10 ra.toList with
      | some seconds => .ok (min seconds 60 : Int)
      | none => .error .valueError, w)
  else
    let base : Rat := (min (2 ^ attempt) 30 : Nat)
    let (jitter, w) := uniform 0 (base / 2) w
    (.ok (base / 2 + jitter), w)

-- The sleep between two passes, and what it raises instead.
def pause (net : Net W ε δ) (headers : Dict String String) (attempt : Nat) (w : W) : Option Exn × W :=
  match retryAfter net.isdigit net.uniform headers attempt w with
  | (.error exc, w) => (some exc, w)
  | (.ok seconds, w) => (none, net.sleep seconds w)

-- The backoff loop with `left` retries left, behind `attempt` passes.
def hopLoop (mode : Mode) (s : Session) (net : Net W ε δ) (hop : Hop) :
    (left attempt : Nat) → Run W → Except Exn Response × Run W
  | 0, _, r => sendOnce mode s net hop r
  | left + 1, attempt, r =>
      match sendOnce mode s net hop r with
      | (.error exc, r) => (.error exc, r)
      | (.ok resp, r) =>
          if busy resp.statusCode then
            match pause net resp.headers attempt r.world with
            | (some exc, w) => (.error exc, { r with world := w })
            | (none, w) => hopLoop mode s net hop left (attempt + 1) { r with world := w }
          else (.ok resp, r)

def doHop (mode : Mode) (s : Session) (net : Net W ε δ) (hop : Hop) (r : Run W) :
    Except Exn Response × Run W :=
  hopLoop mode s net hop s.backoffRetries 0 r

-- A request that is answered over HTTP/1.1 has a body that can be written.
theorem octets_of_request {tp : Http1.Exchange} {hop : Hop} {raw : RawResponse}
    (hr : http1Request tp hop = .ok raw) : (Http1.octets hop.body).isSome := by
  unfold http1Request Http1.request at hr
  cases ho : Http1.octets hop.body with
  | none => simp [ho] at hr
  | some data => rfl

end NeverFox.Client
