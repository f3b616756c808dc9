import NeverFox.Lib.Run
import Mathlib.Data.List.Basic

namespace NeverFox.Quic

-- Res's error of nss-rs, as far as the agent tells errors apart.
inductive TlsError
  | wouldBlock
  | mixedHandshakeMethod
  | echRetry (config : List UInt8)
  | nss (code : Int)
  deriving DecidableEq

inductive HandshakeState (Info : Type)
  | new
  | inProgress
  | authenticationPending
  | echFallbackAuthenticationPending (publicName : String)
  | authenticated (err : Int)
  | complete (info : Info)
  | failed (e : TlsError)

def HandshakeState.authenticationNeeded {Info : Type} : HandshakeState Info → Bool
  | authenticationPending | echFallbackAuthenticationPending _ => true
  | _ => false

-- What happens to an agent: a verdict of the caller's, the two calls into NSS that
-- drive the handshake, NSS asking in their course for a certificate to be
-- authenticated, their return with success, and RecordList::setup failing.
inductive Mark
  | verdict (err : Int)
  | complete (raw : Bool) (err : Int)
  | force (raw : Bool)
  | hooked
  | succeeded (ends : Bool)
  | setupFailed
  deriving DecidableEq

-- The handshake is complete where the call succeeds. On records the verdict only
-- goes before SSL_ForceHandshake.
def Mark.ends : Mark → Bool
  | complete raw _ => !raw
  | _ => true

structure SslAlert where
  level : Nat
  description : Nat

-- What a call into NSS comes to: its status, whether auth_complete_hook was called
-- in its course, and the alerts that were sent.
structure Called where
  rv : Except TlsError Unit
  hooked : Bool := false
  alerts : List SslAlert := []

structure SecretAgent (Info : Type) where
  opened : Bool := true
  raw : Option Bool := none
  state : HandshakeState Info := .new
  authRequired : Bool := false
  alert : Option Nat := none
  log : List Mark := []

-- What the calls behind a handshake come to. `publicName` is of
-- preinfo()?.ech_public_name()?, and `written` of the record that was given, if any.
structure Answers (Info : Type) where
  now : Except TlsError Unit
  register : Except TlsError Unit
  setup : Except TlsError Unit
  completed : Called
  written : Option Called
  forced : Called
  publicName : Except TlsError (Option String)
  info : Except TlsError Info

inductive AgentOp (Info : Type)
  | authenticated (err : Int)
  | handshake (answers : Answers Info)
  | handshakeRaw (answers : Answers Info)
  | close (setup : Except TlsError Unit)

-- alert_sent_cb: the first fatal alert stays.
def alertSent (alert : Option Nat) (a : SslAlert) : Option Nat :=
  if a.level = 2 then alert.or (some a.description) else alert

namespace SecretAgent

variable {Info : Type}

-- The callbacks of a call into NSS.
def callbacks (s : SecretAgent Info) (c : Called) : SecretAgent Info :=
  { s with
    authRequired := s.authRequired || c.hooked
    alert := c.alerts.foldl alertSent s.alert
    log := s.log ++ if c.hooked then [.hooked] else [] }

-- A call that drives the handshake.
def called (s : SecretAgent Info) (mark : Mark) (c : Called) : SecretAgent Info :=
  let s := callbacks { s with log := s.log ++ [mark] } c
  { s with log := s.log ++ if c.rv = .ok () then [.succeeded mark.ends] else [] }

def setRaw (s : SecretAgent Info) (r : Bool) (register : Except TlsError Unit) :
    Except TlsError Unit × SecretAgent Info :=
  match s.raw with
  | some raw => (if raw = r then .ok () else .error .mixedHandshakeMethod, s)
  | none =>
    match register with
    | .error e => (.error e, s)
    | .ok _ => (.ok (), { s with raw := some r })

-- `convert` is ech::convert_ech_error.
def captureError {α : Type} (convert : TlsError → TlsError) (s : SecretAgent Info) (res : Except TlsError α) :
    Except TlsError α × SecretAgent Info :=
  match res with
  | .error e => (.error (convert e), { s with state := .failed (convert e) })
  | .ok a => (.ok a, s)

def updateState (convert : TlsError → TlsError) (s : SecretAgent Info) (answers : Answers Info)
    (res : Except TlsError Unit) : Except TlsError Unit × SecretAgent Info :=
  if res = .error .wouldBlock then
    if s.authRequired then
      match answers.publicName with
      | .error e => (.error e, s)
      | .ok none => (.ok (), { s with state := .authenticationPending })
      | .ok (some name) => (.ok (), { s with state := .echFallbackAuthenticationPending name })
    else (.ok (), { s with state := .inProgress })
  else
    match s.captureError convert res with
    | (.error e, s) => (.error e, s)
    | (.ok _, s) =>
      match s.captureError convert answers.info with
      | (.error e, s) => (.error e, s)
      | (.ok info, s) => (.ok (), { s with state := .complete info })

def handshake (convert : TlsError → TlsError) (s : SecretAgent Info) (answers : Answers Info) :
    Except TlsError Unit × SecretAgent Info :=
  match answers.now with
  | .error e => (.error e, s)
  | .ok _ =>
    match s.setRaw false answers.register with
    | (.error e, s) => (.error e, s)
    | (.ok _, s) =>
      match s.state with
      | .authenticated err =>
        (s.called (.complete false err) answers.completed).updateState convert answers answers.completed.rv
      | _ => (s.called (.force false) answers.forced).updateState convert answers answers.forced.rv

-- Feed in the record, and drive the handshake once more.
def feed (convert : TlsError → TlsError) (s : SecretAgent Info) (answers : Answers Info) :
    Except TlsError Unit × SecretAgent Info :=
  match answers.written with
  | none => (s.called (.force true) answers.forced).updateState convert answers answers.forced.rv
  | some written =>
    match (s.callbacks written).captureError convert written.rv with
    | (.error e, s) => (.error e, s)
    | (.ok _, s) => (s.called (.force true) answers.forced).updateState convert answers answers.forced.rv

def handshakeRaw (convert : TlsError → TlsError) (s : SecretAgent Info) (answers : Answers Info) :
    Except TlsError Unit × SecretAgent Info :=
  match answers.now with
  | .error e => (.error e, s)
  | .ok _ =>
    match s.setRaw true answers.register with
    | (.error e, s) => (.error e, s)
    | (.ok _, s) =>
      match s.captureError convert answers.setup with
      | (.error e, s) => (.error e, { s with log := s.log ++ [.setupFailed] })
      | (.ok _, s) =>
        match s.state with
        | .authenticated err =>
          let s := s.called (.complete true err) answers.completed
          match s.captureError convert answers.completed.rv with
          | (.error e, s) => (.error e, s)
          | (.ok _, s) => s.feed convert answers
        | _ => s.feed convert answers

-- `none` is a panic: of the assertion of `authenticated`, or of the setup in `close`.
def step (convert : TlsError → TlsError) (s : SecretAgent Info) : AgentOp Info → Option (SecretAgent Info)
  | .authenticated err =>
    if s.state.authenticationNeeded then
      some { s with authRequired := false, state := .authenticated err, log := s.log ++ [.verdict err] }
    else none
  | .handshake answers => some (s.handshake convert answers).2
  | .handshakeRaw answers => some (s.handshakeRaw convert answers).2
  | .close setup =>
    if !s.opened then some s
    else if s.raw = some true then
      match s.captureError convert setup with
      | (.error _, _) => none
      | (.ok _, s) => some { s with opened := false }
    else some { s with opened := false }

end SecretAgent

-- The verdicts of the caller, those that NSS was given, and the one that waits.
def verdicts (log : List Mark) : List Int := log.filterMap fun
  | .verdict err => some err
  | _ => none

def given (log : List Mark) : List Int := log.filterMap fun
  | .complete _ err => some err
  | _ => none

def pending {Info : Type} : HandshakeState Info → List Int
  | .authenticated err => [err]
  | _ => []

-- A place for one verdict: it is taken when there is none, and stays until it is
-- given to NSS or no list for records can be set up.
def serve (waits : List Int) : Mark → Option (List Int)
  | .verdict err => if waits = [] then some [err] else none
  | .complete _ err => if waits = [err] then some [] else none
  | .setupFailed => some []
  | .force _ | .hooked | .succeeded _ => some waits

def Mark.method : Mark → Option Bool
  | complete raw _ | force raw => some raw
  | verdict _ | hooked | succeeded _ | setupFailed => none

-- NSS has asked and has not been told that the certificate is good.
def owes (owed : Bool) : Mark → Bool
  | .hooked => true
  | .complete _ err => owed && err ≠ 0
  | _ => owed

def owed (log : List Mark) : Bool := log.foldl owes false

-- The caller has said so since NSS asked last.
def clears (cleared : Bool) : Mark → Bool
  | .hooked => false
  | .verdict err => cleared || err = 0
  | _ => cleared

def cleared (log : List Mark) : Bool := log.foldl clears true

-- What the agent relies on: NSS does not end the handshake with success before it
-- is told.
def trusted : Bool → List Mark → Bool
  | _, [] => true
  | waits, m :: log => (m ≠ .succeeded true || !waits) && trusted (owes waits m) log

-- The public name can be looked up when it is wanted.
def AgentOp.Named {Info : Type} : AgentOp Info → Prop
  | .handshake answers | .handshakeRaw answers => ∃ name, answers.publicName = .ok name
  | .authenticated _ | .close _ => True

namespace SecretAgent

variable {Info : Type} {convert : TlsError → TlsError} {s t : SecretAgent Info} {answers : Answers Info}

theorem updateState_eq (hname : ∃ name, answers.publicName = .ok name) (res : Except TlsError Unit) :
    ∃ state, (s.updateState convert answers res).2 = { s with state := state } ∧ pending state = [] ∧
      ∀ info, state = .complete info → res = .ok () := by
  obtain ⟨name, hname⟩ := hname
  unfold updateState
  by_cases hblocked : res = .error .wouldBlock
  · rw [if_pos hblocked]
    by_cases hauth : s.authRequired = true
    · rw [if_pos hauth, hname]
      cases name with
      | none => exact ⟨_, rfl, rfl, nofun⟩
      | some name => exact ⟨_, rfl, rfl, nofun⟩
    · rw [if_neg hauth]
      exact ⟨_, rfl, rfl, nofun⟩
  · rw [if_neg hblocked]
    cases res with
    | error e => exact ⟨_, rfl, rfl, nofun⟩
    | ok _ =>
        cases hinfo : answers.info with
        | error e => exact ⟨_, rfl, rfl, nofun⟩
        | ok info => exact ⟨_, rfl, rfl, fun _ _ => rfl⟩

-- Marks of NSS's side of a call.
def Answering (raw : Bool) (m : Mark) : Prop := m = .hooked ∨ m = .force raw ∨ ∃ ends, m = .succeeded ends

-- The handshake was driven on: first NSS was given the verdict that waited.
structure Driven (s t : SecretAgent Info) (raw : Bool) : Prop where
  log : ∃ rest, t.log = s.log ++ ((pending s.state).map (.complete raw) ++ rest) ∧
    (∀ m ∈ rest, Answering raw m) ∧
    ∀ info, t.state = .complete info → ∃ init, rest = init ++ [.succeeded true]
  settled : pending t.state = []
  method : t.raw = some raw

theorem called_log (s : SecretAgent Info) (mark : Mark) (c : Called) : ∃ rest,
    (s.called mark c).log = s.log ++ (mark :: rest) ∧ (∀ raw, ∀ m ∈ rest, Answering raw m) ∧
      (c.rv = .ok () → ∃ init, rest = init ++ [.succeeded mark.ends]) := by
  refine ⟨(if c.hooked then [.hooked] else []) ++ if c.rv = .ok () then [.succeeded mark.ends] else [],
    ?_, ?_, ?_⟩
  · unfold called callbacks
    simp only [List.append_assoc, List.cons_append, List.nil_append]
  · intro raw m hm
    rw [List.mem_append] at hm
    rcases hm with hm | hm
    · split at hm
      · exact .inl (List.mem_singleton.mp hm)
      · cases hm
    · split at hm
      · exact .inr (.inr ⟨_, List.mem_singleton.mp hm⟩)
      · cases hm
  · intro hok
    rw [if_pos hok]
    exact ⟨_, rfl⟩

-- The verdict that waited is given, and no record comes with it.
theorem driven_completed {err : Int} (hraw : s.raw = some false) (hstate : pending s.state = [err])
    (hname : ∃ name, answers.publicName = .ok name) :
    Driven s ((s.called (.complete false err) answers.completed).updateState convert answers
      answers.completed.rv).2 false := by
  obtain ⟨rest, hlog, hrest, hok⟩ := called_log s (.complete false err) answers.completed
  obtain ⟨state, heq, hpending, hcomplete⟩ :=
    @updateState_eq _ convert (s.called (.complete false err) answers.completed) answers hname
      answers.completed.rv
  rw [heq]
  refine ⟨⟨rest, ?_, hrest false, fun info hinfo => hok (hcomplete info hinfo)⟩, hpending, hraw⟩
  rw [hstate]
  exact hlog

-- The last call, behind what has been done so far.
theorem driven_forced {raw : Bool} {before : List Mark} {u : SecretAgent Info} (hu : u.raw = some raw)
    (hname : ∃ name, answers.publicName = .ok name)
    (hlog : u.log = s.log ++ ((pending s.state).map (.complete raw) ++ before))
    (hbefore : ∀ m ∈ before, Answering raw m) :
    Driven s ((u.called (.force raw) answers.forced).updateState convert answers
      answers.forced.rv).2 raw := by
  obtain ⟨rest, hcalled, hrest, hok⟩ := called_log u (.force raw) answers.forced
  obtain ⟨state, heq, hpending, hcomplete⟩ :=
    @updateState_eq _ convert (u.called (.force raw) answers.forced) answers hname answers.forced.rv
  rw [heq]
  refine ⟨⟨before ++ .force raw :: rest, ?_, ?_, ?_⟩, hpending, hu⟩
  · show (u.called (.force raw) answers.forced).log = _
    rw [hcalled, hlog]
    simp only [List.append_assoc]
  · intro m hm
    rcases List.mem_append.mp hm with hm | hm
    · exact hbefore m hm
    · rcases List.mem_cons.mp hm with rfl | hm
      · exact .inr (.inl rfl)
      · exact hrest raw m hm
  · intro info hinfo
    obtain ⟨init, rfl⟩ := hok (hcomplete info hinfo)
    exact ⟨before ++ .force raw :: init, by simp [Mark.ends]⟩

-- The record comes first.
theorem driven_feed {before : List Mark} {u : SecretAgent Info} (hu : u.raw = some true)
    (hname : ∃ name, answers.publicName = .ok name)
    (hlog : u.log = s.log ++ ((pending s.state).map (.complete true) ++ before))
    (hbefore : ∀ m ∈ before, Answering true m) : Driven s (u.feed convert answers).2 true := by
  unfold feed
  cases hwritten : answers.written with
  | none => exact driven_forced hu hname hlog hbefore
  | some written =>
      have hcalls : (u.callbacks written).log = s.log ++ ((pending s.state).map (.complete true) ++
          (before ++ if written.hooked then [.hooked] else [])) := by
        show u.log ++ _ = _
        rw [hlog]
        simp only [List.append_assoc]
      have hmarks : ∀ m ∈ before ++ (if written.hooked then [.hooked] else []), Answering true m := by
        intro m hm
        rcases List.mem_append.mp hm with hm | hm
        · exact hbefore m hm
        · split at hm
          · exact .inl (List.mem_singleton.mp hm)
          · cases hm
      dsimp only
      cases written.rv with
      | error e =>
          refine ⟨⟨_, hcalls, hmarks, ?_⟩, rfl, hu⟩
          intro info hinfo
          cases hinfo
      | ok _ => exact @driven_forced _ convert _ _ true _ (u.callbacks written) hu hname hcalls hmarks

theorem setRaw_cases (s : SecretAgent Info) (r : Bool) (register : Except TlsError Unit) :
    (∃ e, s.setRaw r register = (.error e, s)) ∨
      (s.setRaw r register = (.ok (), { s with raw := some r }) ∧ (s.raw = none ∨ s.raw = some r)) := by
  unfold setRaw
  cases hraw : s.raw with
  | none =>
      cases register with
      | error e => exact .inl ⟨e, rfl⟩
      | ok _ => exact .inr ⟨rfl, .inl rfl⟩
  | some raw =>
      by_cases h : raw = r
      · subst h
        refine .inr ⟨?_, .inr rfl⟩
        dsimp only
        rw [if_pos rfl, ← hraw]
      · refine .inl ⟨.mixedHandshakeMethod, ?_⟩
        dsimp only
        rw [if_neg h]

-- Nothing was asked of NSS that drives the handshake. A verdict that waited is
-- dropped if no list for records could be set up.
structure Quiet (s t : SecretAgent Info) : Prop where
  method : t.raw = s.raw ∨ s.raw = none
  kept : t.log = s.log ∧ t.state = s.state ∨ t.log = s.log ++ [.setupFailed] ∧ ∃ e, t.state = .failed e

theorem quiet_refl (s : SecretAgent Info) : Quiet s s := ⟨.inl rfl, .inl ⟨rfl, rfl⟩⟩

theorem handshake_cases (hname : ∃ name, answers.publicName = .ok name) :
    Quiet s (s.handshake convert answers).2 ∨
      (s.raw = none ∨ s.raw = some false) ∧ Driven s (s.handshake convert answers).2 false := by
  unfold handshake
  cases answers.now with
  | error e => exact .inl (quiet_refl s)
  | ok _ =>
      dsimp only
      rcases setRaw_cases s false answers.register with ⟨e, hset⟩ | ⟨hset, hmethod⟩
      · rw [hset]
        exact .inl (quiet_refl s)
      · rw [hset]
        refine .inr ⟨hmethod, ?_⟩
        have hforced : pending s.state = [] → Driven s
            ((called { s with raw := some false } (.force false) answers.forced).updateState convert answers
              answers.forced.rv).2 false := by
          intro hnone
          have hlog : s.log = s.log ++ ((pending s.state).map (.complete false) ++ []) := by
            rw [hnone]
            simp
          exact driven_forced rfl hname hlog nofun
        obtain ⟨opened, raw, state, authRequired, alert, log⟩ := s
        cases state with
        | authenticated err =>
            have hdriven := @driven_completed _ convert
              ⟨opened, some false, .authenticated err, authRequired, alert, log⟩ answers err rfl rfl hname
            exact ⟨hdriven.log, hdriven.settled, hdriven.method⟩
        | new | inProgress | authenticationPending | echFallbackAuthenticationPending | complete
        | failed => exact hforced rfl

theorem handshakeRaw_cases (hname : ∃ name, answers.publicName = .ok name) :
    Quiet s (s.handshakeRaw convert answers).2 ∨
      (s.raw = none ∨ s.raw = some true) ∧ Driven s (s.handshakeRaw convert answers).2 true := by
  unfold handshakeRaw
  cases answers.now with
  | error e => exact .inl (quiet_refl s)
  | ok _ =>
      dsimp only
      rcases setRaw_cases s true answers.register with ⟨e, hset⟩ | ⟨hset, hmethod⟩
      · rw [hset]
        exact .inl (quiet_refl s)
      · rw [hset]
        dsimp only
        cases hsetup : answers.setup with
        | error e =>
            exact .inl ⟨hmethod.elim .inr fun h => .inl h.symm, .inr ⟨rfl, convert e, rfl⟩⟩
        | ok _ =>
            refine .inr ⟨hmethod, ?_⟩
            dsimp only [captureError]
            have hfed : pending s.state = [] →
                Driven s (feed convert { s with raw := some true } answers).2 true := by
              intro hnone
              have hlog : s.log = s.log ++ ((pending s.state).map (.complete true) ++ []) := by
                rw [hnone]
                simp
              exact driven_feed rfl hname hlog nofun
            obtain ⟨opened, raw, state, authRequired, alert, log⟩ := s
            cases state with
            | authenticated err =>
                obtain ⟨rest, hcalled, hrest, _⟩ :=
                  called_log ⟨opened, some true, .authenticated err, authRequired, alert, log⟩
                    (.complete true err) answers.completed
                dsimp only
                cases answers.completed.rv with
                | error e =>
                    refine ⟨⟨rest, hcalled, hrest true, ?_⟩, rfl, rfl⟩
                    intro info hinfo
                    cases hinfo
                | ok _ => exact driven_feed rfl hname hcalled (hrest true)
            | new | inProgress | authenticationPending | echFallbackAuthenticationPending | complete
            | failed => exact hfed rfl

-- All that one operation can do.
theorem step_cases {op : AgentOp Info} (hname : op.Named) (hs : s.step convert op = some t) :
    Quiet s t ∨
      (∃ err, pending s.state = [] ∧ t.state = .authenticated err ∧ t.raw = s.raw ∧
        t.log = s.log ++ [.verdict err]) ∨
      ∃ raw, (s.raw = none ∨ s.raw = some raw) ∧ Driven s t raw := by
  cases op with
  | authenticated err =>
      by_cases hneeded : s.state.authenticationNeeded = true
      · simp only [step, hneeded, if_true] at hs
        obtain rfl := Option.some.inj hs
        refine .inr (.inl ⟨err, ?_, rfl, rfl, rfl⟩)
        cases hstate : s.state with
        | authenticated e =>
            rw [hstate] at hneeded
            cases hneeded
        | new | inProgress | authenticationPending | echFallbackAuthenticationPending | complete
        | failed => rfl
      · simp only [step, hneeded] at hs
        cases hs
  | handshake answers =>
      obtain rfl := Option.some.inj hs
      exact (handshake_cases hname).imp id fun h => .inr ⟨false, h⟩
  | handshakeRaw answers =>
      obtain rfl := Option.some.inj hs
      exact (handshakeRaw_cases hname).imp id fun h => .inr ⟨true, h⟩
  | close setup =>
      refine .inl ?_
      unfold step at hs
      dsimp only at hs
      split at hs
      · obtain rfl := Option.some.inj hs
        exact quiet_refl s
      · split at hs
        · cases setup with
          | error e => cases hs
          | ok _ =>
              obtain rfl := Option.some.inj hs
              exact ⟨.inl rfl, .inl ⟨rfl, rfl⟩⟩
        · obtain rfl := Option.some.inj hs
          exact ⟨.inl rfl, .inl ⟨rfl, rfl⟩⟩

end SecretAgent

end NeverFox.Quic
