import NeverFox.H2.Lemmas

namespace NeverFox.H2

variable {ε δ : Type}

-- What `emit` does before it writes: the frames, or what it raises.
def Conn.prepare (hp : Hpack ε δ) (c : Conn ε δ) (sid : Nat) (fields : List Header) (body : Body) :
    Conn ε δ × Except Exn (List Frame) :=
  let (enc, result) := hp.encode c.enc fields
  let c := c.setEncoder enc
  match result with
  | .error exc => (c, .error exc)
  | .ok block =>
      let head := headersFrame sid block (!body.truthy)
      if head.packs then
        match body with
        | .other _ => (c, .error .typeError)
        | .bytes data => (c, .ok (head :: dataFrames sid data))
      else (c, .error .structError)

theorem Conn.emit_prepare (hp : Hpack ε δ) (c : Conn ε δ) (sid : Nat) (fields : List Header)
    (body : Body) :
    c.emit hp sid fields body = match c.prepare hp sid fields body with
      | (c, .error exc) => (c, some exc)
      | (c, .ok frames) => c.write frames := by
  unfold emit prepare
  cases he : (hp.encode c.enc fields).2 with
  | error exc => simp only [he]
  | ok block =>
      simp only [he]
      by_cases hpacks : (headersFrame sid block (!body.truthy)).packs = true
      · cases body <;> simp only [hpacks, ↓reduceIte]
      · simp only [hpacks, Bool.false_eq_true, ↓reduceIte]

theorem Conn.prepare_fst (hp : Hpack ε δ) (c : Conn ε δ) (sid : Nat) (fields : List Header)
    (body : Body) :
    (c.prepare hp sid fields body).1 = c.setEncoder (hp.encode c.enc fields).1 := by
  unfold prepare
  dsimp only
  split
  · rfl
  · split
    · split <;> rfl
    · rfl

namespace Lifetime

-- The next statement of `close`, of `_teardown_transport`, where `left` polls
-- remain, or of `Transport.close`.
inductive Pc
  | mark
  | stop
  | choose
  | join
  | fail
  | poll (left : Nat)
  | test
  | shutdown
  | free
  | clear
  deriving DecidableEq

-- Where a caller stands. Between acquire() and release() it is out to send,
-- and `writing` and `rstWriting` hold `_send_lock` until Transport.write returns.
inductive Caller
  | idle
  | acquired
  | checked (args : SendArgs) (fields : List Header)
  | writing (frames : List Frame)
  | sent
  | resetting (sid : Nat)
  | rstWriting (sid : Nat)
  | closing (pc : Pc)

-- What the reader goes on with behind a close() of its own, or behind its
-- last statement.
inductive Back
  | dispatch (f : Frame)
  | raised (exc : Exn)
  | exit

-- Where the reader stands: `reading` inside recvn, and `replying` inside a
-- write of the dispatch, of which there may be several.
inductive Reader
  | loop
  | reading
  | dispatching (f : Frame)
  | replying (f : Frame)
  | raised (exc : Exn)
  | closing (back : Back) (pc : Pc)
  | finished

-- A connection between its threads. `conn.tp.live` is whether `ctx` is set and
-- `conn.reading` whether the reader is alive; `lock` is the holder of
-- `_send_lock`, `none` in it being the reader. `freed` counts the calls of
-- fxtls_close, and `hungUp` keeps that a read of the handle came back with the
-- end of the stream or an error.
structure State (ε δ : Type) where
  conn : Conn ε δ
  caller : Nat → Caller := fun _ => .idle
  reader : Reader := .loop
  lock : Option (Option Nat) := none
  peerEof : Bool := false
  freed : Nat := 0
  hungUp : Bool := false

-- What fxtls_read comes back with. More octets of a frame change nothing.
inductive Read
  | data
  | frame (f : Frame)
  | timeout
  | closed

-- One statement, or one critical section, of a caller or of the reader.
inductive Act
  | acquire (t : Nat)
  | acquireFresh (t : Nat)
  | abandon (t : Nat)
  | check (t : Nat) (args : SendArgs)
  | beginWrite (t : Nat)
  | endWrite (t : Nat)
  | release (t : Nat)
  | reset (t sid : Nat)
  | beginRst (t : Nat)
  | endRst (t : Nat)
  | pop (t sid : Nat)
  | close (t : Nat)
  | closer (t : Nat)
  | recvn
  | received (r : Read)
  | beginReply
  | endReply
  | dispatched
  | selfClose
  | reader

namespace State

def start (hp : Hpack ε δ) (fate : Nat → Option Nat) : State ε δ := { conn := .init hp fate }

def setCaller (s : State ε δ) (t : Nat) (caller : Caller) : State ε δ :=
  { s with caller := Function.update s.caller t caller }

-- One statement of a close, and the next one, if any. Only another thread
-- than the reader waits for it.
def advance (s : State ε δ) (byReader : Bool) : Pc → State ε δ × Option Pc
  | .mark => ({ s with conn := { s.conn with closed := true } }, some .stop)
  | .stop => ({ s with conn := { s.conn with tp := { s.conn.tp with stop := true } } }, some .choose)
  | .choose => (s, some (if !byReader && s.conn.reading then .join else .fail))
  | .join => (s, none)
  | .fail => ({ s with conn := s.conn.failAll (.connectionError "connection closed") }, some (.poll 400))
  | .poll 0 => (s, some .test)
  | .poll (left + 1) => (s, some (if s.conn.refs = 0 then .test else .poll left))
  | .test => (s, if s.conn.tp.live then some (if s.peerEof then .shutdown else .free) else none)
  | .shutdown => (s, some .free)
  | .free => ({ s with freed := s.freed + 1 }, some .clear)
  | .clear => ({ s with conn := { s.conn with tp := { s.conn.tp with live := false } } }, none)

-- The critical section at the top of `close`.
def enterClose (s : State ε δ) : State ε δ := { s with conn := { s.conn with closing := true } }

def closer (s : State ε δ) (t : Nat) (pc : Pc) : State ε δ :=
  match s.advance false pc with
  | (s, some pc) => s.setCaller t (.closing pc)
  | (s, none) => s.setCaller t .idle

def goBack (s : State ε δ) : Back → State ε δ
  | .dispatch f => { s with reader := .dispatching f }
  | .raised exc => { s with reader := .raised exc }
  | .exit => { s with reader := .finished, conn := { s.conn with reading := false } }

def readerCloses (s : State ε δ) (back : Back) (pc : Pc) : State ε δ :=
  match s.advance true pc with
  | (s, some pc) => { s with reader := .closing back pc }
  | (s, none) => s.goBack back

def check (s : State ε δ) (t : Nat) (args : SendArgs) : State ε δ :=
  if s.conn.closed then s.setCaller t .sent
  else match args.fields with
    | none => s.setCaller t .sent
    | some fields => s.setCaller t (.checked args fields)

-- The locked section of `_send` up to its write, which an error may forestall.
def beginWrite (hp : Hpack ε δ) (s : State ε δ) (t : Nat) (args : SendArgs) (fields : List Header) :
    State ε δ :=
  let sid := s.conn.nextId
  match (s.conn.allocate.register sid args.maxBytes).prepare hp sid fields args.body with
  | (c, .ok frames) => { s with conn := c, lock := some (some t) }.setCaller t (.writing frames)
  | (c, .error _) => { s with conn := c }.setCaller t .sent

def dispatched (hp : Hpack ε δ) (s : State ε δ) (f : Frame) : State ε δ :=
  match s.conn.dispatch hp f with
  | (c, none) => { s with conn := c, reader := .loop }
  | (c, some exc) => { s with conn := c, reader := .raised exc }

-- Without a handle every read fails.
def received (s : State ε δ) : Read → Option (State ε δ)
  | .data => if s.conn.tp.live then some s else none
  | .frame f => if s.conn.tp.live ∧ f.onWire then some { s with reader := .dispatching f } else none
  | .timeout =>
      if s.conn.tp.live then
        some (if s.conn.tp.stop then { s with reader := .raised Conn.peerClosed } else s)
      else none
  | .closed =>
      some { s with
        reader := .raised Conn.peerClosed
        peerEof := true
        hungUp := s.hungUp || s.conn.tp.live }

def step (hp : Hpack ε δ) (s : State ε δ) : Act → Option (State ε δ)
  | .acquire t =>
      match s.caller t with
      | .idle =>
          some (if s.conn.acquirable then { s with conn := s.conn.acquire }.setCaller t .acquired else s)
      | _ => none
  | .acquireFresh t =>
      match s.caller t with
      | .idle => some ({ s with conn := s.conn.acquire }.setCaller t .acquired)
      | _ => none
  | .abandon t =>
      match s.caller t with
      | .acquired => some (s.setCaller t .idle)
      | _ => none
  | .check t args =>
      match s.caller t with
      | .acquired => some (s.check t args)
      | _ => none
  | .beginWrite t =>
      match s.caller t, s.lock with
      | .checked args fields, none => some (s.beginWrite hp t args fields)
      | _, _ => none
  | .endWrite t =>
      match s.caller t with
      | .writing frames => some ({ s with conn := (s.conn.write frames).1, lock := none }.setCaller t .sent)
      | _ => none
  | .release t =>
      match s.caller t with
      | .sent => some ({ s with conn := s.conn.release }.setCaller t .idle)
      | _ => none
  | .reset t sid =>
      match s.caller t with
      | .idle => some (if s.conn.closed || s.conn.closing then s else s.setCaller t (.resetting sid))
      | _ => none
  | .beginRst t =>
      match s.caller t, s.lock with
      | .resetting sid, none => some ({ s with lock := some (some t) }.setCaller t (.rstWriting sid))
      | _, _ => none
  | .endRst t =>
      match s.caller t with
      | .rstWriting sid =>
          some ({ s with conn := (s.conn.write [rstStream sid E_CANCEL]).1, lock := none }.setCaller t .idle)
      | _ => none
  | .pop t sid =>
      match s.caller t with
      | .idle => some { s with conn := s.conn.pop sid }
      | _ => none
  | .close t =>
      match s.caller t with
      | .idle => some (if s.conn.closing then s else s.enterClose.setCaller t (.closing .mark))
      | _ => none
  | .closer t =>
      match s.caller t with
      | .closing pc => some (s.closer t pc)
      | _ => none
  | .recvn =>
      match s.reader with
      | .loop => some { s with reader := .reading }
      | _ => none
  | .received r =>
      match s.reader with
      | .reading => s.received r
      | _ => none
  | .beginReply =>
      match s.reader, s.lock with
      | .dispatching f, none => some { s with reader := .replying f, lock := some none }
      | _, _ => none
  | .endReply =>
      match s.reader with
      | .replying f => some { s with reader := .dispatching f, lock := none }
      | _ => none
  | .dispatched =>
      match s.reader with
      | .dispatching f => some (s.dispatched hp f)
      | _ => none
  | .selfClose =>
      match s.reader with
      | .dispatching f =>
          some (if s.conn.closing then s else { s.enterClose with reader := .closing (.dispatch f) .mark })
      | .raised exc =>
          some (if s.conn.closing then s else { s.enterClose with reader := .closing (.raised exc) .mark })
      | _ => none
  | .reader =>
      match s.reader with
      | .raised exc => some { s with conn := s.conn.failAll exc, reader := .closing .exit (.poll 400) }
      | .closing back pc => some (s.readerCloses back pc)
      | _ => none

end State

-- Everything a step can be, with where its thread stood.
inductive Happens (hp : Hpack ε δ) (s : State ε δ) : Act → State ε δ → Prop
  | acquire {t : Nat} (hc : s.caller t = .idle) (ha : s.conn.acquirable = true) :
      Happens hp s (.acquire t) ({ s with conn := s.conn.acquire }.setCaller t .acquired)
  | refused {t : Nat} (hc : s.caller t = .idle) (ha : s.conn.acquirable = false) :
      Happens hp s (.acquire t) s
  | acquireFresh {t : Nat} (hc : s.caller t = .idle) :
      Happens hp s (.acquireFresh t) ({ s with conn := s.conn.acquire }.setCaller t .acquired)
  | abandon {t : Nat} (hc : s.caller t = .acquired) : Happens hp s (.abandon t) (s.setCaller t .idle)
  | check {t : Nat} {args : SendArgs} {caller : Caller} (hc : s.caller t = .acquired)
      (hn : caller = .sent ∨ ∃ fields, caller = .checked args fields) :
      Happens hp s (.check t args) (s.setCaller t caller)
  | beginWrite {t : Nat} {args : SendArgs} {fields : List Header} {c : Conn ε δ} {caller : Caller}
      {lock : Option (Option Nat)} (hc : s.caller t = .checked args fields) (hl : s.lock = none)
      (hconn : c = ((s.conn.allocate.register s.conn.nextId args.maxBytes).setEncoder
        (hp.encode s.conn.enc fields).1))
      (hn : caller = .sent ∨ ∃ frames, caller = .writing frames) :
      Happens hp s (.beginWrite t) ({ s with conn := c, lock := lock }.setCaller t caller)
  | endWrite {t : Nat} {frames : List Frame} (hc : s.caller t = .writing frames) :
      Happens hp s (.endWrite t)
        ({ s with conn := (s.conn.write frames).1, lock := none }.setCaller t .sent)
  | release {t : Nat} (hc : s.caller t = .sent) :
      Happens hp s (.release t) ({ s with conn := s.conn.release }.setCaller t .idle)
  | reset {t sid : Nat} (hc : s.caller t = .idle) (ho : s.conn.closed = false)
      (hg : s.conn.closing = false) : Happens hp s (.reset t sid) (s.setCaller t (.resetting sid))
  | skipped {t sid : Nat} (hc : s.caller t = .idle) : Happens hp s (.reset t sid) s
  | beginRst {t sid : Nat} (hc : s.caller t = .resetting sid) (hl : s.lock = none) :
      Happens hp s (.beginRst t) ({ s with lock := some (some t) }.setCaller t (.rstWriting sid))
  | endRst {t sid : Nat} (hc : s.caller t = .rstWriting sid) :
      Happens hp s (.endRst t)
        ({ s with conn := (s.conn.write [rstStream sid E_CANCEL]).1, lock := none }.setCaller t .idle)
  | pop {t sid : Nat} (hc : s.caller t = .idle) :
      Happens hp s (.pop t sid) { s with conn := s.conn.pop sid }
  | close {t : Nat} (hc : s.caller t = .idle) (hg : s.conn.closing = false) :
      Happens hp s (.close t) (s.enterClose.setCaller t (.closing .mark))
  | closed {t : Nat} (hc : s.caller t = .idle) (hg : s.conn.closing = true) :
      Happens hp s (.close t) s
  | closer {t : Nat} {pc : Pc} (hc : s.caller t = .closing pc) :
      Happens hp s (.closer t) (s.closer t pc)
  | recvn (hr : s.reader = .loop) : Happens hp s .recvn { s with reader := .reading }
  | received {r : Read} {s' : State ε δ} (hr : s.reader = .reading) (hs : s.received r = some s') :
      Happens hp s (.received r) s'
  | beginReply {f : Frame} (hr : s.reader = .dispatching f) (hl : s.lock = none) :
      Happens hp s .beginReply { s with reader := .replying f, lock := some none }
  | endReply {f : Frame} (hr : s.reader = .replying f) :
      Happens hp s .endReply { s with reader := .dispatching f, lock := none }
  | dispatched {f : Frame} (hr : s.reader = .dispatching f) :
      Happens hp s .dispatched (s.dispatched hp f)
  | selfClose {back : Back} (hr : s.goBack back = s) (hb : back ≠ .exit)
      (hg : s.conn.closing = false) :
      Happens hp s .selfClose { s.enterClose with reader := .closing back .mark }
  | selfClosed (hg : s.conn.closing = true) : Happens hp s .selfClose s
  | raised {exc : Exn} (hr : s.reader = .raised exc) :
      Happens hp s .reader { s with conn := s.conn.failAll exc, reader := .closing .exit (.poll 400) }
  | readerCloses {back : Back} {pc : Pc} (hr : s.reader = .closing back pc) :
      Happens hp s .reader (s.readerCloses back pc)

theorem step_happens {hp : Hpack ε δ} {s s' : State ε δ} {a : Act} (h : s.step hp a = some s') :
    Happens hp s a s' := by
  cases a with
  -- One place of the thread enables each of these, and they do one thing there.
  | acquireFresh | abandon | endWrite | release | endRst | pop | closer | recvn | endReply | dispatched =>
      simp only [State.step] at h
      split at h
      · rename_i hat
        obtain rfl := Option.some.inj h
        constructor
        exact hat
      · cases h
  | beginRst | beginReply =>
      simp only [State.step] at h
      split at h
      · rename_i hat hl
        obtain rfl := Option.some.inj h
        constructor
        · exact hat
        · exact hl
      · cases h
  | acquire t =>
      simp only [State.step] at h
      split at h
      · rename_i hc
        obtain rfl := Option.some.inj h
        by_cases ha : s.conn.acquirable = true
        · simp only [ha, ↓reduceIte]
          exact .acquire hc ha
        · simp only [ha]
          exact .refused hc (by simpa using ha)
      · cases h
  | check t args =>
      simp only [State.step] at h
      split at h
      · rename_i hc
        obtain rfl := Option.some.inj h
        unfold State.check
        split
        · exact .check hc (.inl rfl)
        · split
          · exact .check hc (.inl rfl)
          · exact .check hc (.inr ⟨_, rfl⟩)
      · cases h
  | beginWrite t =>
      simp only [State.step] at h
      split at h
      · rename_i args fields hc hl
        obtain rfl := Option.some.inj h
        unfold State.beginWrite
        have hfst := (s.conn.allocate.register s.conn.nextId args.maxBytes).prepare_fst hp s.conn.nextId
          fields args.body
        dsimp only
        split
        · rename_i c frames he
          rw [he] at hfst
          exact .beginWrite hc hl hfst (.inr ⟨frames, rfl⟩)
        · rename_i c exc he
          rw [he] at hfst
          exact .beginWrite hc hl hfst (.inl rfl)
      · cases h
  | reset t sid =>
      simp only [State.step] at h
      split at h
      · rename_i hc
        obtain rfl := Option.some.inj h
        by_cases hg : (s.conn.closed || s.conn.closing) = true
        · simp only [hg, ↓reduceIte]
          exact .skipped hc
        · simp only [hg, Bool.false_eq_true, ↓reduceIte]
          obtain ⟨ho, hg⟩ := Bool.or_eq_false_iff.mp (by simpa using hg)
          exact .reset hc ho hg
      · cases h
  | close t =>
      simp only [State.step] at h
      split at h
      · rename_i hc
        obtain rfl := Option.some.inj h
        by_cases hg : s.conn.closing = true
        · simp only [hg, ↓reduceIte]
          exact .closed hc hg
        · simp only [hg, Bool.false_eq_true, ↓reduceIte]
          exact .close hc (by simpa using hg)
      · cases h
  | received r =>
      simp only [State.step] at h
      split at h
      · rename_i hr
        exact .received hr h
      · cases h
  | selfClose =>
      have hback : ∀ back, s.goBack back = s → back ≠ .exit →
          Happens hp s .selfClose (if s.conn.closing then s
            else { s.enterClose with reader := .closing back .mark }) := by
        intro back hr hb
        by_cases hg : s.conn.closing = true
        · simp only [hg, ↓reduceIte]
          exact .selfClosed hg
        · simp only [hg, Bool.false_eq_true, ↓reduceIte]
          exact .selfClose hr hb (by simpa using hg)
      simp only [State.step] at h
      split at h
      · rename_i f hr
        obtain rfl := Option.some.inj h
        exact hback (.dispatch f) (by simp [State.goBack, ← hr]) (by simp)
      · rename_i exc hr
        obtain rfl := Option.some.inj h
        exact hback (.raised exc) (by simp [State.goBack, ← hr]) (by simp)
      · cases h
  | reader =>
      simp only [State.step] at h
      split at h
      · rename_i hr
        obtain rfl := Option.some.inj h
        exact .raised hr
      · rename_i hr
        obtain rfl := Option.some.inj h
        exact .readerCloses hr
      · cases h

-- What a read comes to: nothing as yet, a frame or the stop flag, or the end.
inductive Reads (s : State ε δ) : Read → State ε δ → Prop
  | waits (r : Read) : Reads s r s
  | wakes (r : Read) {reader : Reader} (hr : ∀ back pc, reader ≠ .closing back pc) (hf : reader ≠ .finished) :
      Reads s r { s with reader := reader }
  | ends : Reads s .closed { s with
      reader := .raised Conn.peerClosed
      peerEof := true
      hungUp := s.hungUp || s.conn.tp.live }

theorem received_reads {s s' : State ε δ} {r : Read} (h : s.received r = some s') : Reads s r s' := by
  cases r with
  | data =>
      obtain ⟨_, rfl⟩ : s.conn.tp.live = true ∧ s = s' := by simpa [State.received] using h
      exact .waits _
  | frame f =>
      obtain ⟨_, hs⟩ := Option.ite_none_right_eq_some.mp h
      obtain rfl := Option.some.inj hs
      exact .wakes _ nofun nofun
  | timeout =>
      obtain ⟨_, hs⟩ := Option.ite_none_right_eq_some.mp h
      obtain rfl := Option.some.inj hs
      split
      · exact .wakes _ nofun nofun
      · exact .waits _
  | closed =>
      obtain rfl := Option.some.inj h
      exact .ends

section Uninterrupted

variable {hp : Hpack ε δ} {s : State ε δ} {t : Nat}

@[simp] theorem State.setCaller_setCaller (s : State ε δ) (t : Nat) (caller next : Caller) :
    (s.setCaller t caller).setCaller t next = s.setCaller t next := by
  simp [State.setCaller]

@[simp] theorem State.caller_setCaller (s : State ε δ) (t : Nat) (caller : Caller) :
    (s.setCaller t caller).caller t = caller := by
  simp [State.setCaller]

-- Uninterrupted, the statements of a send are the send of the connection,
-- whether it ends at its checks, before its write, or behind it.
theorem send_uninterrupted (args : SendArgs) (hc : s.caller t = .acquired) (hl : s.lock = none) :
    ∃ acts ∈ [[Act.check t args, .release t], [.check t args, .beginWrite t, .release t],
        [.check t args, .beginWrite t, .endWrite t, .release t]],
      Transition.run (State.step hp) s acts =
        some ({ s with conn := (s.conn.send hp args).1 }.setCaller t .idle) := by
  have hcheck : State.step hp s (.check t args) = some (s.check t args) := by simp [State.step, hc]
  have hrelease : ∀ c : Conn ε δ, State.step hp ({ s with conn := c }.setCaller t .sent) (.release t) =
      some ({ s with conn := c.release }.setCaller t .idle) := fun c => by
    simp [State.step, State.setCaller]
  rw [Conn.send_fst]
  rcases s.conn.trySend_cases hp args with ⟨hno, exc, he⟩ | ⟨fields, hopen, hf, he⟩
  · refine ⟨_, .head _, ?_⟩
    have hsent : s.check t args = s.setCaller t .sent := by
      rcases hno with hno | hno <;> simp [State.check, hno]
    rw [he, Transition.run, hcheck, hsent]
    simp [Transition.run, hrelease s.conn]
  · have hchecked : s.check t args = s.setCaller t (.checked args fields) := by
      simp [State.check, hopen, hf]
    rw [he, Conn.emit_prepare]
    cases hprep : (s.conn.allocate.register s.conn.nextId args.maxBytes).prepare hp s.conn.nextId fields
        args.body with
    | mk c result =>
        cases result with
        | error exc =>
            refine ⟨_, .tail _ (.head _), ?_⟩
            have hbegin : State.step hp (s.setCaller t (.checked args fields)) (.beginWrite t) =
                some ({ s with conn := c }.setCaller t .sent) := by
              simp [State.step, State.setCaller, hl, State.beginWrite, hprep]
            rw [Transition.run, hcheck, hchecked, Option.bind_some, Transition.run, hbegin,
              Option.bind_some, Transition.run, hrelease]
            rfl
        | ok frames =>
            refine ⟨_, .tail _ (.tail _ (.head _)), ?_⟩
            have hbegin : State.step hp (s.setCaller t (.checked args fields)) (.beginWrite t) =
                some ({ s with conn := c, lock := some (some t) }.setCaller t (.writing frames)) := by
              simp [State.step, State.setCaller, hl, State.beginWrite, hprep]
            have hwrite : State.step hp
                ({ s with conn := c, lock := some (some t) }.setCaller t (.writing frames)) (.endWrite t) =
                some ({ s with conn := (c.write frames).1 }.setCaller t .sent) := by
              simp [State.step, State.setCaller, ← hl]
            rw [Transition.run, hcheck, hchecked, Option.bind_some, Transition.run, hbegin,
              Option.bind_some, Transition.run, hwrite, Option.bind_some, Transition.run, hrelease]
            rfl

-- So are those of `_rst` the reset of the stream.
theorem reset_uninterrupted (sid : Nat) (hc : s.caller t = .idle) (hl : s.lock = none) :
    ∃ acts ∈ [[Act.reset t sid], [.reset t sid, .beginRst t, .endRst t]],
      Transition.run (State.step hp) s acts = some { s with conn := s.conn.sendRst sid } := by
  have hidle : ∀ c : Conn ε δ, { s with conn := c }.setCaller t .idle = { s with conn := c } := fun c => by
    simp [State.setCaller, ← hc]
  by_cases hg : (s.conn.closed || s.conn.closing) = true
  · refine ⟨_, .head _, ?_⟩
    simp [Transition.run, State.step, hc, Conn.sendRst, hg]
  · refine ⟨_, .tail _ (.head _), ?_⟩
    have hwrite : s.conn.sendRst sid = (s.conn.write [rstStream sid E_CANCEL]).1 := if_neg hg
    rw [hwrite, ← hidle]
    simp [Transition.run, State.step, hc, hg, hl, State.setCaller]

-- A caller goes through a close without a break.
def Closes (hp : Hpack ε δ) (t : Nat) (s : State ε δ) (pc : Pc) (s' : State ε δ) : Prop :=
  ∃ n, Transition.run (State.step hp) (s.setCaller t (.closing pc)) (List.replicate n (.closer t)) =
    some (s'.setCaller t .idle)

theorem advance_setCaller (s : State ε δ) (t : Nat) (caller : Caller) (byReader : Bool) (pc : Pc) :
    (s.setCaller t caller).advance byReader pc =
      ((s.advance byReader pc).1.setCaller t caller, (s.advance byReader pc).2) := by
  cases pc with
  | poll left => cases left <;> rfl
  | _ => rfl

theorem Closes.last {s s' : State ε δ} {pc : Pc} (h : s.advance false pc = (s', none)) :
    Closes hp t s pc s' := by
  refine ⟨1, ?_⟩
  simp [Transition.run, State.step, State.closer, advance_setCaller, h]

theorem Closes.next {s mid s' : State ε δ} {pc pc' : Pc} (h : s.advance false pc = (mid, some pc'))
    (hrest : Closes hp t mid pc' s') : Closes hp t s pc s' := by
  obtain ⟨n, hrun⟩ := hrest
  refine ⟨n + 1, ?_⟩
  simp [List.replicate_succ, Transition.run, State.step, State.closer, advance_setCaller, h, hrun]

-- With no reference left the wait ends at its first poll.
theorem Closes.teardown (hp : Hpack ε δ) (t : Nat) (s : State ε δ) (left : Nat) (hrefs : s.conn.refs = 0) :
    ∃ s', Closes hp t s (.poll (left + 1)) s' ∧
      s'.conn = { s.conn with tp := { s.conn.tp with live := false } } := by
  have hpoll : s.advance false (.poll (left + 1)) = (s, some .test) := by simp [State.advance, hrefs]
  by_cases hl : s.conn.tp.live = true
  · by_cases he : s.peerEof = true
    · have htest : s.advance false .test = (s, some .shutdown) := by simp [State.advance, hl, he]
      exact ⟨_, .next hpoll (.next htest (.next rfl (.next rfl (.last rfl)))), rfl⟩
    · have htest : s.advance false .test = (s, some .free) := by simp [State.advance, hl, he]
      exact ⟨_, .next hpoll (.next htest (.next rfl (.last rfl))), rfl⟩
  · have htest : s.advance false .test = (s, none) := by simp [State.advance, hl]
    refine ⟨s, .next hpoll (.last htest), ?_⟩
    rw [← Bool.eq_false_of_not_eq_true hl]

-- So are those of `close` the close of the connection, once nobody is out to send.
theorem close_uninterrupted (hc : s.caller t = .idle) (hrefs : s.conn.refs = 0) :
    ∃ n s', Transition.run (State.step hp) s (.close t :: List.replicate n (.closer t)) = some s' ∧
      s'.conn = s.conn.close := by
  by_cases hg : s.conn.closing = true
  · exact ⟨0, s, by simp [Transition.run, State.step, hc, hg], by simp [Conn.close, hg]⟩
  obtain ⟨c, hconn⟩ : ∃ c : Conn ε δ, c =
      { s.conn with closing := true, closed := true, tp := { s.conn.tp with stop := true } } := ⟨_, rfl⟩
  suffices hcloses : ∃ s', Closes hp t { s with conn := c } .choose s' ∧ s'.conn = s.conn.close by
    obtain ⟨s', hcloses, hclose⟩ := hcloses
    obtain ⟨n, hrun⟩ : Closes hp t s.enterClose .mark s' := .next rfl (.next rfl (hconn ▸ hcloses))
    exact ⟨n, s'.setCaller t .idle, by simpa [Transition.run, State.step, hc, hg] using hrun, hclose⟩
  by_cases hr : s.conn.reading = true
  · have hchoose : ({ s with conn := c } : State ε δ).advance false .choose =
        ({ s with conn := c }, some .join) := by simp [State.advance, hconn, hr]
    exact ⟨_, .next hchoose (.last rfl), by simp [Conn.close, hg, hr, hconn]⟩
  · have hchoose : ({ s with conn := c } : State ε δ).advance false .choose =
        ({ s with conn := c }, some .fail) := by simp [State.advance, hconn, hr]
    obtain ⟨s', hcloses, hclose⟩ := Closes.teardown hp t
      { s with conn := c.failAll (.connectionError "connection closed") } 399
      (by simpa [Conn.failAll, Conn.failItems_eq, hconn] using hrefs)
    exact ⟨s', .next hchoose (.next rfl hcloses), by simp [hclose, Conn.close, hg, hr, hconn]⟩

end Uninterrupted

end Lifetime

end NeverFox.H2
