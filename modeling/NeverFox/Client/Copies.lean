import NeverFox.Client.Redirect
import Mathlib.Algebra.Order.Ring.Unbundled.Rat

namespace NeverFox.Client.Copies

-- `RateLimiter`: the interval between requests, and the next slot of each host.
structure RateLimiter where
  interval : Rat
  next : Dict String Rat

-- `delay` of a limiter that paces: the slot is reserved without the jitter.
def RateLimiter.reserve (limiter : RateLimiter) (host : String) (now jitter : Rat) : Rat × RateLimiter :=
  let start := max now ((limiter.next.get? host).getD 0)
  (max 0 (start - now + limiter.interval * jitter),
    { limiter with next := limiter.next.set host (start + limiter.interval) })

-- The counts of a session as it was given them: range() of a negative one is empty.
structure Counts where
  maxRedirects : Int := 20
  retries : Int := 3
  backoffRetries : Int := 2

-- What one transport attempt comes to, from the connection it gets or fails to
-- get to the whole response. Only a response that is late is a timeout.
inductive Outcome
  | response (proto : String) (raw : RawResponse)
  | timeout
  | connectionError (message : String)
  | ioError (message : String)
  | other (exc : { exc : Exn // exc.isIOError = false })

-- asyncio has a timeout of its own; from Python 3.11 on it is the built-in one.
inductive Raised
  | exn (exc : Exn)
  | asyncTimeout

-- What a request does outside the session, with what each call is given.
inductive Action
  | delay (host : String)
  | sleep (seconds : Rat)
  | retryAfter (headers : Dict String String) (attempt : Nat)
  | h3 (hop : Hop)
  | attempt (hop : Hop)

-- The functions of other packages, and the world they act on.
structure Env (W : Type) where
  text : Text
  codecs : Codecs
  isdigit : String → Bool
  oneTimeout : Bool
  time : W → Rat
  monotonic : W → Rat
  uniform : Rat → Rat → W → Rat × W
  sleep : Rat → W → W
  bundled : W → Bool
  h3 : Hop → W → Except Exn RawResponse × W
  transport : Hop → W → Outcome × W

-- What the requests of a session share: the jar, the rate limiter, and the
-- hosts known for h3. The log has every call in order.
structure Shared (W : Type) where
  world : W
  jar : CookieJar
  limiter : RateLimiter
  h3Hosts : List String := []
  log : List Action := []

variable {W : Type}

def Shared.note (σ : Shared W) (action : Action) (w : W) : Shared W :=
  { σ with world := w, log := σ.log ++ [action] }

namespace Env

variable (env : Env W)

def delay (host : String) (σ : Shared W) : Rat × Shared W :=
  if σ.limiter.interval = 0 then (0, σ.note (.delay host) σ.world)
  else
    let (jitter, w) := env.uniform (-15 / 100) (15 / 100) σ.world
    let (wait, limiter) := σ.limiter.reserve host (env.monotonic σ.world) jitter
    (wait, { σ.note (.delay host) w with limiter := limiter })

def pause (seconds : Rat) (σ : Shared W) : Shared W :=
  σ.note (.sleep seconds) (env.sleep seconds σ.world)

def retryAfter (headers : Dict String String) (attempt : Nat) (σ : Shared W) :
    Except Exn Rat × Shared W :=
  let (seconds, w) := Client.retryAfter env.isdigit env.uniform headers attempt σ.world
  (seconds, σ.note (.retryAfter headers attempt) w)

def shouldTryH3 (s : Session) (host : String) (port : Nat) (σ : Shared W) : Bool :=
  if s.h3 = .off ∨ port ≠ 443 ∨ env.bundled σ.world = false then false
  else s.h3 = .on || host ∈ σ.h3Hosts

def requestH3 (hop : Hop) (σ : Shared W) : Except Exn RawResponse × Shared W :=
  let (answer, w) := env.h3 hop σ.world
  (answer, σ.note (.h3 hop) w)

def exchange (hop : Hop) (σ : Shared W) : Outcome × Shared W :=
  let (outcome, w) := env.transport hop σ.world
  (outcome, σ.note (.attempt hop) w)

def response (raw : RawResponse) (proto url : String) (maxBytes : Nat) : Except Raised Response :=
  (Response.make env.codecs raw proto url maxBytes).mapError .exn

-- `_build_headers`, with the jar it reads.
def headersFor (s : Session) (headers : Option (List Header)) (bodyHeaders : List Header)
    (host path scheme : String) (cookies : List (String × String)) (redirectSite : Option String)
    (σ : Shared W) : List Header × Shared W :=
  let (jarCookie, jar) :=
    CookieJar.headerFor σ.jar host path (scheme = "https") (env.time σ.world)
  (buildHeaders s headers bodyHeaders jarCookie cookies redirectSite, { σ with jar := jar })

def storeCookies (host : String) (cookies : List String) (σ : Shared W) : Option Exn × Shared W :=
  let (jar, raised) :=
    CookieJar.setFromResponse env.text.loadCookies σ.jar host (env.time σ.world) cookies
  (raised, { σ with jar := jar })

-- `raise TimeoutError` is caught as such, asyncio's only where it is the same class.
def isTimeout : Raised → Bool
  | .exn (.timeoutError _) => true
  | .exn _ => false
  | .asyncTimeout => env.oneTimeout

def isAsyncTimeout : Raised → Bool
  | .exn (.timeoutError _) => env.oneTimeout
  | .exn _ => false
  | .asyncTimeout => true

-- `except (ConnectionError, IOError)`.
def isIOError : Raised → Bool
  | .exn exc => exc.isIOError
  | .asyncTimeout => env.oneTimeout

end Env

-- `_note_altsvc`.
def Shared.noteAltsvc (σ : Shared W) (host : String) (headers : Dict String String) : Shared W :=
  if "h3".toList <:+: ((headers.get? "alt-svc").getD "").toList ∧ host ∉ σ.h3Hosts then
    { σ with h3Hosts := σ.h3Hosts ++ [host] }
  else σ

-- What an attempt raises or returns, given what a late response raises.
def Outcome.result (late : Raised) : Outcome → Except Raised (String × RawResponse)
  | .response proto raw => .ok (proto, raw)
  | .timeout => .error late
  | .connectionError message => .error (.exn (.connectionError message))
  | .ioError message => .error (.exn (.ioError message))
  | .other exc => .error (.exn exc)

-- `as_dict`.
def asDict (jar : CookieJar) : Dict String String :=
  jar.values.foldl (fun d c => d.set c.name c.value) .empty

-- A response with the attributes that `request` sets on it.
structure Reply where
  response : Response
  cookies : Dict String String

-- The variables of `request` that one hop hands to the next.
structure Vars where
  method : String
  url : String
  headers : Option (List Header)
  body : Body
  bodyHeaders : List Header
  params : List (String × String)
  redirectSite : Option String := none

namespace Sync

-- `Session._send_once` behind the h3 attempt.
def attempts (env : Env W) (s : Session) (hop : Hop) :
    Nat → Raised → Shared W → Except Raised Response × Shared W
  | 0, last, σ => (.error last, σ)
  | n + 1, _, σ =>
      let (outcome, σ) := env.exchange hop σ
      match (outcome.result (.exn (H2.Conn.requestTimeout hop.timeout))).bind fun (proto, raw) =>
        env.response raw proto s!"{hop.scheme}://{hop.authority}{hop.path}" (maxBytes s) with
      | .ok resp => (.ok resp, σ)
      | .error raised =>
          if env.isTimeout raised then (.error raised, σ)
          else if env.isIOError raised then attempts env s hop n raised σ
          else (.error raised, σ)

def sendOnce (env : Env W) (s : Session) (counts : Counts) (hop : Hop) (σ : Shared W) :
    Except Raised Response × Shared W :=
  let tries := (max 1 (if hop.method ∈ IDEMPOTENT then counts.retries else 1)).toNat
  if hop.scheme = "https" ∧ hop.proxy = none ∧ env.shouldTryH3 s hop.host hop.port σ then
    let (answer, σ) := env.requestH3 hop σ
    match (answer.mapError .exn).bind fun raw => env.response raw "h3" (h3Url hop) 0 with
    | .ok resp => (.ok resp, σ)
    | .error _ => attempts env s hop tries (.exn .typeError) σ
  else attempts env s hop tries (.exn .typeError) σ

-- `_do_hop` with `left` passes to go.
def passes (env : Env W) (s : Session) (counts : Counts) (hop : Hop) :
    (left attempt : Nat) → Option Response → Shared W → Except Raised (Option Response) × Shared W
  | 0, _, resp, σ => (.ok resp, σ)
  | left + 1, attempt, _, σ =>
      let (d, σ) := env.delay hop.host σ
      let σ := if d = 0 then σ else env.pause d σ
      match sendOnce env s counts hop σ with
      | (.error raised, σ) => (.error raised, σ)
      | (.ok resp, σ) =>
          if busy resp.statusCode ∧ (attempt : Int) < counts.backoffRetries then
            match env.retryAfter resp.headers attempt σ with
            | (.error exc, σ) => (.error (.exn exc), σ)
            | (.ok seconds, σ) =>
                passes env s counts hop left (attempt + 1) (some resp) (env.pause seconds σ)
          else (.ok (some resp), σ)

def doHop (env : Env W) (s : Session) (counts : Counts) (hop : Hop) (σ : Shared W) :
    Except Raised (Option Response) × Shared W :=
  passes env s counts hop (counts.backoffRetries + 1).toNat 0 none σ

-- The loop of `request` with `n` hops to go, and the history so far.
def follow (env : Env W) (s : Session) (counts : Counts) (call : Call) :
    Nat → Vars → List Reply → Shared W → Except Raised (Reply × List Reply) × Shared W
  | 0, _, _, σ => (.error (.exn (.httpError s!"too many redirects ({counts.maxRedirects})")), σ)
  | n + 1, v, history, σ =>
      match env.text.urlsplit v.url with
      | .error exc => (.error (.exn exc), σ)
      | .ok u =>
          match u.hostname with
          | none => (.error (.exn .attributeError), σ)
          | some host =>
              let port := urlPort u
              let path := requestPath env.text u v.params
              let (hdrs, σ) := env.headersFor s v.headers v.bodyHeaders host path u.scheme call.cookies
                v.redirectSite σ
              let hop : Hop := ⟨v.method, host, port, path, authority host port, hdrs, v.body,
                call.timeout, u.scheme, v.url, call.proxy.or s.proxy⟩
              match doHop env s counts hop σ with
              | (.error raised, σ) => (.error raised, σ)
              | (.ok none, σ) => (.error (.exn .attributeError), σ)
              | (.ok (some resp), σ) =>
                  let resp := { resp with url := v.url }
                  match env.storeCookies host (setCookies resp) σ with
                  | (some exc, σ) => (.error (.exn exc), σ)
                  | (none, σ) =>
                      let reply : Reply := ⟨resp, asDict σ.jar⟩
                      let σ := σ.noteAltsvc host resp.headers
                      match target call resp with
                      | none => (.ok (reply, history), σ)
                      | some location =>
                          let url := env.text.urljoin v.url location
                          match env.text.urlsplit url with
                          | .error exc => (.error (.exn exc), σ)
                          | .ok new =>
                              let dropped := rewritesMethod v.method resp.statusCode
                              follow env s counts call n
                                { method := if dropped then "GET" else v.method
                                  url := url
                                  headers := stripHeaders v.headers (new.hostname = some host)
                                  body := if dropped then .bytes [] else v.body
                                  bodyHeaders := if dropped then [] else v.bodyHeaders
                                  params := []
                                  redirectSite := some (secFetchSite u.scheme (some host) port new) }
                                (history ++ [reply]) σ

def request (env : Env W) (s : Session) (counts : Counts) (call : Call) (σ : Shared W) :
    Except Raised (Reply × List Reply) × Shared W :=
  let (body, bodyHeaders) := prepareBody env.text call.data call.json
  follow env s counts call (counts.maxRedirects + 1).toNat
    { method := PyText.upper call.method, url := call.url, headers := call.headers, body := body,
      bodyHeaders := bodyHeaders, params := mergeParams s.params call.params } [] σ

end Sync

namespace Async

-- `AsyncSession._send_once` behind the h3 attempt. Looking for a warm
-- connection first is part of the attempt.
def attempts (env : Env W) (s : Session) (hop : Hop) :
    Nat → Raised → Shared W → Except Raised Response × Shared W
  | 0, last, σ => (.error last, σ)
  | n + 1, _, σ =>
      let (outcome, σ) := env.exchange hop σ
      match (outcome.result (.asyncTimeout)).bind fun (proto, raw) =>
        env.response raw proto hop.url (maxBytes s) with
      | .ok resp => (.ok resp, σ)
      | .error raised =>
          if env.isAsyncTimeout raised then (.error raised, σ)
          else if env.isIOError raised then attempts env s hop n raised σ
          else (.error raised, σ)

def sendOnce (env : Env W) (s : Session) (counts : Counts) (hop : Hop) (σ : Shared W) :
    Except Raised Response × Shared W :=
  let tries := (max 1 (if hop.method ∈ IDEMPOTENT then counts.retries else 1)).toNat
  if hop.scheme = "https" ∧ hop.proxy = none ∧ env.shouldTryH3 s hop.host hop.port σ then
    let (answer, σ) := env.requestH3 hop σ
    match (answer.mapError .exn).bind fun raw => env.response raw "h3" (h3Url hop) 0 with
    | .ok resp => (.ok resp, σ)
    | .error _ => attempts env s hop tries (.exn .typeError) σ
  else attempts env s hop tries (.exn .typeError) σ

-- `_do_hop` with `left` passes to go.
def passes (env : Env W) (s : Session) (counts : Counts) (hop : Hop) :
    (left attempt : Nat) → Option Response → Shared W → Except Raised (Option Response) × Shared W
  | 0, _, resp, σ => (.ok resp, σ)
  | left + 1, attempt, _, σ =>
      let (d, σ) := env.delay hop.host σ
      let σ := if d = 0 then σ else env.pause d σ
      match sendOnce env s counts hop σ with
      | (.error raised, σ) => (.error raised, σ)
      | (.ok resp, σ) =>
          if busy resp.statusCode ∧ (attempt : Int) < counts.backoffRetries then
            match env.retryAfter resp.headers attempt σ with
            | (.error exc, σ) => (.error (.exn exc), σ)
            | (.ok seconds, σ) =>
                passes env s counts hop left (attempt + 1) (some resp) (env.pause seconds σ)
          else (.ok (some resp), σ)

def doHop (env : Env W) (s : Session) (counts : Counts) (hop : Hop) (σ : Shared W) :
    Except Raised (Option Response) × Shared W :=
  passes env s counts hop (counts.backoffRetries + 1).toNat 0 none σ

-- The loop of `request` with `n` hops to go, and the history so far.
def follow (env : Env W) (s : Session) (counts : Counts) (call : Call) :
    Nat → Vars → List Reply → Shared W → Except Raised (Reply × List Reply) × Shared W
  | 0, _, _, σ => (.error (.exn (.httpError s!"too many redirects ({counts.maxRedirects})")), σ)
  | n + 1, v, history, σ =>
      match env.text.urlsplit v.url with
      | .error exc => (.error (.exn exc), σ)
      | .ok u =>
          match u.hostname with
          | none => (.error (.exn .attributeError), σ)
          | some host =>
              let port := urlPort u
              let path := requestPath env.text u v.params
              let (hdrs, σ) := env.headersFor s v.headers v.bodyHeaders host path u.scheme call.cookies
                v.redirectSite σ
              let hop : Hop := ⟨v.method, host, port, path, authority host port, hdrs, v.body,
                call.timeout, u.scheme, v.url, call.proxy.or s.proxy⟩
              match doHop env s counts hop σ with
              | (.error raised, σ) => (.error raised, σ)
              | (.ok none, σ) => (.error (.exn .attributeError), σ)
              | (.ok (some resp), σ) =>
                  let resp := { resp with url := v.url }
                  match env.storeCookies host (setCookies resp) σ with
                  | (some exc, σ) => (.error (.exn exc), σ)
                  | (none, σ) =>
                      let reply : Reply := ⟨resp, asDict σ.jar⟩
                      let σ := σ.noteAltsvc host resp.headers
                      match target call resp with
                      | none => (.ok (reply, history), σ)
                      | some location =>
                          let url := env.text.urljoin v.url location
                          match env.text.urlsplit url with
                          | .error exc => (.error (.exn exc), σ)
                          | .ok new =>
                              let dropped := rewritesMethod v.method resp.statusCode
                              follow env s counts call n
                                { method := if dropped then "GET" else v.method
                                  url := url
                                  headers := stripHeaders v.headers (new.hostname = some host)
                                  body := if dropped then .bytes [] else v.body
                                  bodyHeaders := if dropped then [] else v.bodyHeaders
                                  params := []
                                  redirectSite := some (secFetchSite u.scheme (some host) port new) }
                                (history ++ [reply]) σ

def request (env : Env W) (s : Session) (counts : Counts) (call : Call) (σ : Shared W) :
    Except Raised (Reply × List Reply) × Shared W :=
  let (body, bodyHeaders) := prepareBody env.text call.data call.json
  follow env s counts call (counts.maxRedirects + 1).toNat
    { method := PyText.upper call.method, url := call.url, headers := call.headers, body := body,
      bodyHeaders := bodyHeaders, params := mergeParams s.params call.params } [] σ

end Async

end NeverFox.Client.Copies
