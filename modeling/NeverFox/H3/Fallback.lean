import NeverFox.Client.Resend
import NeverFox.H3.Recovery
import NeverFox.H3.Request

namespace NeverFox.H3

open Client (Hop H3Run Net Run Session Mode Response h3Url h3Request tryH3 sendOnce attempts attemptCount status_of_make)

-- What `_send_once` calls h3.request with.
def callOf (hop : Hop) : Call where
  method := hop.method
  url := h3Url hop
  headers := hop.headers
  body := hop.body
  timeout := hop.timeout

-- The part of h3.request behind its two checks.
def System.h3Run (named : Bytes → Option Char) (trials : Trials) (sys : System) (call : Call) : H3Run :=
  match sys.mkdtemp "nf_h3_" with
  | .error exc => .unlaunched exc
  | .ok outdir =>
      match sys.run (launch sys call outdir) with
      | .notStarted exc => .unlaunched exc
      | outcome => .launched (answer named trials outcome)

variable {W ε δ : Type}

-- A network whose HTTP/3 backend is neqo-client on the machine that `system` finds.
def withNeqo (named : Bytes → Option Char) (trials : Trials) (system : W → System) (net : Net W ε δ) :
    Net W ε δ :=
  { net with
    bundled := fun w => (system w).bundled
    runH3 := fun hop w => ((system w).h3Run named trials (callOf hop), (net.runH3 hop w).2) }

-- neqo-client has exited with 0, and a final status could be read.
def Completed (named : Bytes → Option Char) (sys : System) (call : Call) (status : Option Int) : Prop :=
  ∃ stderr files n headers, sys.outcome call = some (.finished 0 stderr files) ∧
    parseResponse named stderr = .ok (some n, headers) ∧ 200 ≤ n ∧ status = some n

-- A call returns only from a process that completed, leaves no directory behind,
-- and after a failure `_send_once` goes on to its loop over the other backends.
structure FallsBack (named : Bytes → Option Char) (trials : Trials) (system : W → System) (net : Net W ε δ)
    (hop : Hop) (w : W) (dirs : List String) : Prop where
  complete : ∀ raw, (request named trials (system w) (callOf hop) dirs).1 = .ok raw →
    Completed named (system w) (callOf hop) raw.status
  cleaned : (request named trials (system w) (callOf hop) dirs).2 = dirs
  falls : ∀ exc, (request named trials (system w) (callOf hop) dirs).1 = .error exc →
    ∀ (mode : Mode) (s : Session) (r : Run W), r.world = w →
      sendOnce mode s (withNeqo named trials system net) hop r =
        attempts mode s (withNeqo named trials system net) hop (attemptCount s hop) .typeError
          (tryH3 s (withNeqo named trials system net) hop r).2
  whole : ∀ (s : Session) (r : Run W) (resp : Response), r.world = w →
    (tryH3 s (withNeqo named trials system net) hop r).1 = some resp →
      Completed named (system w) (callOf hop) resp.statusCode

-- A process that has exited otherwise has logged no final status, or its newest
-- file cannot be read.
def Harmless (named : Bytes → Option Char) (sys : System) (call : Call) : Prop :=
  ∀ returncode stderr files, sys.outcome call = some (.finished returncode stderr files) →
    returncode = 0 ∨ (∀ n headers, parseResponse named stderr ≠ .ok (some n, headers)) ∨
      ∀ data, readNewest files ≠ .ok data

variable {named : Bytes → Option Char} {trials : Trials} {system : W → System} {net : Net W ε δ}

-- What the run of a request amounts to for the caller.
def runAnswer : H3Run → Except Exn RawResponse
  | .unlaunched exc => .error exc
  | .launched answer => answer

-- The attempt that the session makes is the call.
theorem h3Request_answer (hop : Hop) (w : W) (dirs : List String) :
    runAnswer (h3Request (withNeqo named trials system net) hop w).1 =
      (request named trials (system w) (callOf hop) dirs).1 := by
  unfold h3Request request
  show runAnswer (if (system w).bundled = false then _ else _ : H3Run × W).1 = _
  by_cases hbundled : (system w).bundled = false
  · rw [if_pos hbundled, if_pos hbundled]
    rfl
  · rw [if_neg hbundled, if_neg hbundled]
    by_cases hbody : hop.body.truthy = true
    · rw [if_pos hbody]
      show _ = (if hop.body.truthy = true then _ else _ : Except Exn RawResponse × List String).1
      rw [if_pos hbody]
      rfl
    · rw [if_neg hbody]
      show runAnswer ((system w).h3Run named trials (callOf hop)) =
        (if hop.body.truthy = true then _ else _ : Except Exn RawResponse × List String).1
      rw [if_neg hbody]
      unfold System.h3Run
      cases (system w).mkdtemp "nf_h3_" with
      | error exc => rfl
      | ok outdir =>
          dsimp only
          cases hrun : (system w).run (launch (system w) (callOf hop) outdir) with
          | finished returncode stderr files => rfl
          | timedOut => rfl
          | notStarted exc => rfl

-- A response that the attempt gives is made from what the call returned.
theorem tryH3_some {s : Session} {hop : Hop} {r : Run W} {resp : Response}
    (h : (tryH3 s (withNeqo named trials system net) hop r).1 = some resp) (dirs : List String) :
    ∃ raw, (request named trials (system r.world) (callOf hop) dirs).1 = .ok raw ∧
      resp.statusCode = raw.status := by
  have hanswer := @h3Request_answer _ _ _ named trials system net hop r.world dirs
  unfold tryH3 at h
  split at h
  · generalize h3Request (withNeqo named trials system net) hop r.world = pair at h hanswer
    obtain ⟨run, w⟩ := pair
    cases run with
    | unlaunched exc => cases h
    | launched result =>
        rw [← hanswer]
        dsimp only at h
        split at h
        · rename_i made hmade
          rw [← Option.some.inj h]
          exact status_of_make hmade
        · cases h
  · cases h

-- A failed call leaves no response.
theorem tryH3_none {s : Session} {hop : Hop} {r : Run W} {dirs : List String} {exc : Exn}
    (h : (request named trials (system r.world) (callOf hop) dirs).1 = .error exc) :
    (tryH3 s (withNeqo named trials system net) hop r).1 = none := by
  cases hresp : (tryH3 s (withNeqo named trials system net) hop r).1 with
  | none => rfl
  | some resp =>
      obtain ⟨raw, hok, _⟩ := tryH3_some hresp dirs
      rw [h] at hok
      cases hok

theorem sendOnce_of_none {mode : Mode} {s : Session} {hop : Hop} {net : Net W ε δ} {r : Run W}
    (h : (tryH3 s net hop r).1 = none) :
    sendOnce mode s net hop r =
      attempts mode s net hop (attemptCount s hop) .typeError (tryH3 s net hop r).2 := by
  unfold sendOnce
  generalize hpair : tryH3 s net hop r = pair at h ⊢
  obtain ⟨resp, r'⟩ := pair
  obtain rfl : resp = none := h
  rfl

-- HTTP/3 falls back on every failure just if a process that exits with an error
-- leaves no response behind, and the directory of a call can be removed.
theorem failures_fall_back_iff (named : Bytes → Option Char) (trials : Trials) (system : W → System)
    (net : Net W ε δ) (hop : Hop) (w : W) (dirs : List String) :
    FallsBack named trials system net hop w dirs ↔
      Harmless named (system w) (callOf hop) ∧ Removable (system w) (callOf hop) := by
  constructor
  · intro hf
    refine ⟨fun returncode stderr files hout => ?_, (request_dirs ..).mp hf.cleaned⟩
    by_contra hno
    simp only [not_or, not_forall, not_not] at hno
    obtain ⟨hcode, ⟨n, headers, hparse⟩, data, hread⟩ := hno
    have hok : (request named trials (system w) (callOf hop) dirs).1 =
        .ok ⟨some n, withEncoding trials headers data, data⟩ := by
      rw [request_outcome hout]
      exact answer_finished.mpr ⟨n, headers, data, hparse, hread, rfl⟩
    obtain ⟨_, _, _, _, hzero, _⟩ := hf.complete _ hok
    rw [hout] at hzero
    exact hcode (Outcome.finished.inj (Option.some.inj hzero)).1
  · rintro ⟨hh, hremovable⟩
    have hcomplete : ∀ raw, (request named trials (system w) (callOf hop) dirs).1 = .ok raw →
        Completed named (system w) (callOf hop) raw.status := by
      intro raw hok
      obtain ⟨returncode, stderr, files, n, headers, data, hout, hparse, hread, rfl⟩ := request_ok hok
      have hzero : returncode = 0 := by
        rcases hh returncode stderr files hout with hzero | hnone | hnone
        · exact hzero
        · exact absurd hparse (hnone n headers)
        · exact absurd hread (hnone data)
      subst hzero
      exact ⟨stderr, files, n, headers, hout, hparse, (parse_settled hparse).final n rfl, rfl⟩
    refine ⟨hcomplete, (request_dirs ..).mpr hremovable, ?_, ?_⟩
    · rintro exc herror mode s r rfl
      exact sendOnce_of_none (tryH3_none herror)
    · rintro s r resp rfl hresp
      obtain ⟨raw, hok, hstatus⟩ := tryH3_some hresp dirs
      rw [hstatus]
      exact hcomplete raw hok

-- A machine on which neqo-client ends behind such a response and some of its body.
def exiting (returncode : Int) (body : Bytes) : System where
  bundled := true
  binary := "neqo-client"
  environ := .empty
  libDirs := []
  darwin := false
  pathsep := ":"
  mkdtemp start := .ok ("/tmp/" ++ start ++ "1")
  run _ := .finished returncode (Utf8.encode (bareLog.text fun _ => true)) [⟨.ok 0, .ok body⟩]
  rmtree _ := true

def h3Only : Net Unit Nat (List Bytes) where
  hpack := ⟨0, [], fun enc _ => (enc, .ok []), fun dec _ => (dec, .ok [])⟩
  codecs := ⟨fun _ _ _ => .error .zlibError, fun _ => .error .otherError, fun _ _ => .error .otherError⟩
  bundled _ := true
  known _ _ := true
  runH3 _ w := (.unlaunched .otherError, w)
  existingConn _ w := (none, w)
  getConn _ w := (.error (.ioError ""), w)
  isdigit _ := false
  uniform low _ w := (low, w)
  sleep _ w := w

def getHop : Hop where
  method := "GET"
  host := "a"
  port := 443
  path := "/"
  authority := "a"
  headers := []
  body := .bytes []
  timeout := 15
  scheme := "https"
  url := "https://a/"
  proxy := none

-- The two octets are returned as the body of a successful response.
theorem broken_off_is_returned : ¬FallsBack (fun _ => none)
    ⟨fun _ => .error .otherError, fun _ _ => .error .zlibError⟩ (fun _ => exiting 1 [104, 105])
    h3Only getHop () [] := by
  intro hf
  have hout : (exiting 1 [104, 105]).outcome (callOf getHop) =
      some (.finished 1 (Utf8.encode (bareLog.text fun _ => true)) [⟨.ok 0, .ok [104, 105]⟩]) := rfl
  have hok : (request (fun _ => none) ⟨fun _ => .error .otherError, fun _ _ => .error .zlibError⟩
      (exiting 1 [104, 105]) (callOf getHop) []).1 = .ok ⟨some 200, withEncoding
        ⟨fun _ => .error .otherError, fun _ _ => .error .zlibError⟩ [] [104, 105], [104, 105]⟩ := by
    rw [request_outcome hout]
    exact answer_finished.mpr ⟨200, [], [104, 105], bareLog_parse _, rfl, rfl⟩
  obtain ⟨_, _, _, _, hzero, _⟩ := hf.complete _ hok
  rw [hout] at hzero
  have hcode := (Outcome.finished.inj (Option.some.inj hzero)).1
  exact absurd hcode (by decide)

end NeverFox.H3
