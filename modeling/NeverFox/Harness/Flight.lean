import NeverFox.H2.Requests
import NeverFox.H2.Responses
import NeverFox.Harness.Capture

namespace NeverFox.Harness

open H2 (Hpack Frame FrameType Arrival bytesOf weight headerLength headerFrame unpackU32)

variable {ε δ : Type}

-- b"PRI * HTTP/2.0\r\n\r\nSM\r\n\r\n"
def PREFACE : Bytes :=
  [80, 82, 73, 32, 42, 32, 72, 84, 84, 80, 47, 50, 46, 48, 13, 10, 13, 10, 83, 77, 13, 10, 13, 10]

def PRIORITY : FrameType := .unknown 2

-- SETTING_NAMES.get(k, k)
def settingName : Nat → String ⊕ Nat
  | 1 => .inl "HEADER_TABLE_SIZE"
  | 2 => .inl "ENABLE_PUSH"
  | 3 => .inl "MAX_CONCURRENT_STREAMS"
  | 4 => .inl "INITIAL_WINDOW_SIZE"
  | 5 => .inl "MAX_FRAME_SIZE"
  | 6 => .inl "MAX_HEADER_LIST_SIZE"
  | k => .inr k

structure PriorityFrame where
  stream : Nat
  excl : Nat
  dep : Nat
  weight : Nat
  inHeaders : Bool := false
  deriving DecidableEq

-- The record that `read_h2_request` fills in.
structure FlightRecord where
  prefaceOk : Bool
  settings : List ((String ⊕ Nat) × Nat) := []
  settingsOrder : List Nat := []
  windowUpdate : Option Nat := none
  priorityFrames : List PriorityFrame := []
  pseudoHeaderOrder : List String := []
  headers : List Header := []
  akamaiFingerprint : Option String := none
  deriving DecidableEq

-- What becomes of the loop with a frame: it raises, it breaks, or it goes on with the
-- octets of header blocks so far.
inductive Turn
  | raised (exc : Exn)
  | done (r : FlightRecord)
  | more (r : FlightRecord) (hbuf : Bytes)

-- The entries of a SETTINGS payload: six octets each.
def settingsEntries : Bytes → Except Exn (List (Nat × Nat))
  | [] => .ok []
  | hi :: lo :: a :: b :: c :: d :: rest =>
      (settingsEntries rest).map ((hi.toNat * 2 ^ 8 + lo.toNat, unpackU32 [a, b, c, d]) :: ·)
  | [_] => .error .indexError
  | _ :: _ :: _ => .error .structError

-- The dependency and the weight at the front of a payload.
def readPriority (sid : Nat) (payload : Bytes) (inHeaders : Bool) : Except Exn PriorityFrame :=
  match payload with
  | a :: b :: c :: d :: w :: _ =>
      let dep := unpackU32 [a, b, c, d]
      .ok ⟨sid, dep / 2 ^ 31, dep % 2 ^ 31, w.toNat, inHeaders⟩
  | [_, _, _, _] => .error .indexError
  | _ => .error .structError

-- n[1:] where n.startswith(":")
def pseudoName (name : String) : Option String :=
  match name.toList with
  | ':' :: rest => some (String.ofList rest)
  | _ => none

def pseudoNames (fields : List Header) : List String := (fields.map Prod.fst).filterMap pseudoName

namespace FlightRecord

def fingerprint (r : FlightRecord) : Except Exn String :=
  let ssraw := ";".intercalate
    ((r.settingsOrder.zip r.settings).map fun s => toString s.1 ++ ":" ++ toString s.2.2)
  match r.pseudoHeaderOrder.mapM fun name => name.toList.head? with
  | none => .error .indexError
  | some initials =>
      .ok (ssraw ++ "|" ++ toString (r.windowUpdate.getD 0) ++ "|" ++ toString r.priorityFrames.length ++
        "|" ++ ",".intercalate (initials.map String.singleton))

-- The end of the header block, with a decoder that has read nothing before.
def complete (hp : Hpack ε δ) (r : FlightRecord) (hbuf : Bytes) : Turn :=
  match (hp.decode hp.decoder hbuf).2 with
  | .error exc => .raised exc
  | .ok fields =>
      let r := { r with headers := fields, pseudoHeaderOrder := pseudoNames fields }
      match r.fingerprint with
      | .error exc => .raised exc
      | .ok text => .done { r with akamaiFingerprint := some text }

-- The body of the loop. CONTINUATION is passed over like any other frame.
def onFrame (hp : Hpack ε δ) (r : FlightRecord) (hbuf : Bytes) (f : Frame) : Turn :=
  if f.ftype = .settings ∧ f.has H2.F_ACK = false then
    match settingsEntries f.payload with
    | .error exc => .raised exc
    | .ok entries =>
        .more { r with
          settings := r.settings ++ entries.map fun s => (settingName s.1, s.2)
          settingsOrder := r.settingsOrder ++ entries.map Prod.fst } hbuf
  else if f.ftype = .windowUpdate ∧ f.sid = 0 then
    if f.payload.length = 4 then .more { r with windowUpdate := some (unpackU32 f.payload % 2 ^ 31) } hbuf
    else .raised .structError
  else if f.ftype = PRIORITY then
    match readPriority f.sid f.payload false with
    | .error exc => .raised exc
    | .ok priority => .more { r with priorityFrames := r.priorityFrames ++ [priority] } hbuf
  else if f.ftype = .headers then
    let read := if f.has H2.F_PRIORITY then
        (readPriority f.sid f.payload true).map fun priority => ([priority], f.payload.drop 5)
      else .ok ([], f.payload)
    match read with
    | .error exc => .raised exc
    | .ok (priority, block) =>
        let r := { r with priorityFrames := r.priorityFrames ++ priority }
        if f.endHeaders then r.complete hp (hbuf ++ block) else .more r (hbuf ++ block)
  else .more r hbuf

end FlightRecord

-- The loop. `none` says that the fuel has run out.
def readFrames (hp : Hpack ε δ) :
    Nat → FlightRecord → Bytes → List Arrival → Option (Except Exn FlightRecord)
  | 0, _, _, _ => none
  | fuel + 1, r, hbuf, conn =>
      match readn 9 conn with
      | none => none
      | some (hdr, conn) =>
          if hdr.length < 9 then some (.ok r)
          else
            match readn (headerLength hdr) conn with
            | none => none
            | some (payload, conn) =>
                match r.onFrame hp hbuf (headerFrame hdr payload) with
                | .raised exc => some (.error exc)
                | .done r => some (.ok r)
                | .more r hbuf => readFrames hp fuel r hbuf conn

-- `TlsConn.recvn` reads like `readn`. What comes in never times out here.
def readH2Request (hp : Hpack ε δ) (segments : List (UInt8 × Bytes)) : Option (Except Exn FlightRecord) :=
  let conn := ofSegments segments
  match readn PREFACE.length conn with
  | none => none
  | some (pre, conn) => readFrames hp (weight conn + 1) { prefaceOk := pre = PREFACE } [] conn

variable {hp : Hpack ε δ}

-- A whole frame at the front is what the body of the loop gets.
theorem readFrames_frame (hp : Hpack ε δ) {f : Frame} (hf : f.legible) {more : Bytes} {conn : List Arrival}
    (hquiet : .timeout ∉ conn) (hconn : bytesOf conn = f.encode ++ more) (fuel : Nat) (r : FlightRecord)
    (hbuf : Bytes) :
    ∃ conn', bytesOf conn' = more ∧ .timeout ∉ conn' ∧ weight conn' < weight conn ∧
      readFrames hp (fuel + 1) r hbuf conn =
        match r.onFrame hp hbuf f.seen with
        | .raised exc => some (.error exc)
        | .done r => some (.ok r)
        | .more r hbuf => readFrames hp fuel r hbuf conn' := by
  obtain ⟨conn₁, hread₁, hbytes₁, hlen₁, hquiet₁⟩ := @readn_eq 9 _ hquiet
  obtain ⟨conn₂, hread₂, hbytes₂, hlen₂, hquiet₂⟩ := @readn_eq f.payload.length _ hquiet₁
  have hheader : (bytesOf conn).take 9 = f.header ∧ (bytesOf conn).drop 9 = f.payload ++ more := by
    rw [hconn, H2.Frame.encode_eq, List.append_assoc, ← f.header_length]
    exact ⟨List.take_left, List.drop_left⟩
  rw [hheader.1] at hread₁
  rw [hheader.2] at hbytes₁
  rw [hbytes₁, List.take_left] at hread₂
  rw [hbytes₁, List.drop_left] at hbytes₂
  have hlength : headerLength f.header = f.payload.length := H2.length_octets hf.2
  have hframe : headerFrame f.header f.payload = f.seen := by
    show Frame.mk (.ofCode f.ftype.code) f.flags (unpackU32 (H2.packU32 f.sid) % 2 ^ 31) f.payload = f.seen
    rw [H2.ofCode_code _ hf.1, H2.unpackU32_packU32_mod]
    rfl
  refine ⟨conn₂, hbytes₂, hquiet₂, ?_, ?_⟩
  · have hsum := congrArg List.length hconn
    rw [H2.Frame.encode_eq, List.length_append, List.length_append, f.header_length, ← hbytes₂] at hsum
    unfold weight
    omega
  · rw [readFrames, hread₁]
    dsimp only
    rw [if_neg (by rw [f.header_length]; omega), hlength, hread₂]
    dsimp only
    rw [hframe]

-- What the connection writes before its first request.
def Answers (f : Frame) : Prop :=
  f = H2.settingsAck ∨ (∃ payload, f = H2.pingAck payload ∧ payload.length < 2 ^ 24) ∨
    ∃ sid, f = H2.rstStream sid H2.E_CANCEL

theorem Answers.legible {f : Frame} (h : Answers f) : f.legible := by
  obtain rfl | ⟨payload, rfl, hlen⟩ | ⟨sid, rfl⟩ := h
  · exact ⟨fun code h => (nomatch h), by decide⟩
  · exact ⟨fun code h => (nomatch h), hlen⟩
  · exact ⟨fun code h => (nomatch h), by simp [H2.rstStream, H2.packU32]⟩

-- The server passes it over.
theorem onFrame_answers {f : Frame} (h : Answers f) (r : FlightRecord) (hbuf : Bytes) :
    r.onFrame hp hbuf f.seen = .more r hbuf := by
  obtain rfl | ⟨payload, rfl, _⟩ | ⟨sid, rfl⟩ := h
  · rfl
  · rfl
  · rfl

theorem readFrames_answers (hp : Hpack ε δ) {frames : List Frame} (hframes : ∀ f ∈ frames, Answers f) {more : Bytes}
    {conn : List Arrival} (hquiet : .timeout ∉ conn)
    (hconn : bytesOf conn = frames.flatMap Frame.encode ++ more) {fuel : Nat} (hfuel : weight conn < fuel)
    (r : FlightRecord) (hbuf : Bytes) :
    ∃ conn' fuel', bytesOf conn' = more ∧ .timeout ∉ conn' ∧ weight conn' < fuel' ∧
      readFrames hp fuel r hbuf conn = readFrames hp fuel' r hbuf conn' := by
  induction frames generalizing conn fuel with
  | nil => exact ⟨conn, fuel, hconn, hquiet, hfuel, rfl⟩
  | cons f frames ih =>
      have hf := hframes f List.mem_cons_self
      rw [List.flatMap_cons, List.append_assoc] at hconn
      obtain ⟨fuel, rfl⟩ := Nat.exists_eq_add_of_le' (Nat.lt_of_le_of_lt (Nat.zero_le _) hfuel)
      obtain ⟨conn₁, hbytes₁, hquiet₁, hless, hread⟩ :=
        readFrames_frame hp hf.legible hquiet hconn fuel r hbuf
      rw [hread, onFrame_answers hf]
      exact ih (fun g hg => hframes g (List.mem_cons_of_mem _ hg)) hquiet₁ hbytes₁ (by omega)

open H2 (Conn Event SendArgs Write)

-- A step without a request open writes only answers to the server.
def AnswersOnly (c c' : Conn ε δ) : Prop :=
  ∃ frames, c'.tp.log.flatMap Write.frames = c.tp.log.flatMap Write.frames ++ frames ∧ ∀ f ∈ frames, Answers f

namespace AnswersOnly

theorem of_log {c c' : Conn ε δ} (h : c'.tp.log = c.tp.log) : AnswersOnly c c' :=
  ⟨[], by rw [h, List.append_nil], fun _ hf => nomatch hf⟩

theorem write (c : Conn ε δ) {f : Frame} (h : Answers f) : AnswersOnly c (c.write [f]).1 := by
  refine ⟨[f], by simp [Conn.write], fun g hg => ?_⟩
  obtain rfl := List.mem_singleton.mp hg
  exact h

theorem trans_log {a b c : Conn ε δ} (h : AnswersOnly a b) (hlog : c.tp.log = b.tp.log) :
    AnswersOnly a c := by
  obtain ⟨frames, hframes, hall⟩ := h
  exact ⟨frames, by rw [hlog, hframes], hall⟩

theorem sendRst (c : Conn ε δ) (sid : Nat) : AnswersOnly c (c.sendRst sid) := by
  unfold Conn.sendRst
  split
  · exact of_log rfl
  · exact write c (.inr (.inr ⟨sid, rfl⟩))

-- DATA is credited on open streams only, of which there are none.
theorem dispatch (hp : Hpack ε δ) {c : Conn ε δ} (hopen : c.streams = []) {f : Frame} (hf : f.onWire) :
    AnswersOnly c (c.dispatch hp f).1 := by
  unfold Conn.dispatch
  split
  · unfold Conn.onHeaders
    dsimp only
    split
    · exact of_log (H2.ControlOnly.log_finishHeaders hp _)
    · exact of_log rfl
  · unfold Conn.onContinuation
    dsimp only
    split
    · exact of_log (H2.ControlOnly.log_finishHeaders hp _)
    · exact of_log rfl
  · unfold Conn.onData
    rw [if_neg (by rw [hopen]; exact fun h => nomatch h.1)]
    exact of_log rfl
  · unfold Conn.onSettings
    split
    · exact of_log rfl
    · dsimp only
      split
      · exact of_log rfl
      · exact write _ (.inl rfl)
  · unfold Conn.onPing
    split
    · exact of_log rfl
    · exact write c (.inr (.inl ⟨f.payload, rfl, hf.1⟩))
  · unfold Conn.onGoaway
    refine of_log ?_
    simp only [Conn.failItems_eq]
    rfl
  · unfold Conn.onRst
    split
    · exact of_log rfl
    · exact of_log rfl
  · exact of_log rfl
  · exact of_log rfl

end AnswersOnly

-- A connection whose callers have not sent anything yet.
structure Idle (hp : Hpack ε δ) (c : Conn ε δ) : Prop where
  streams : c.streams = []
  nextId : c.nextId = 1
  enc : c.enc = hp.encoder
  dec : c.dec = hp.decoder
  reading : c.closed = false → c.reading = true
  frames : ∃ frames, c.tp.log.flatMap Write.frames = H2.openingFrames ++ frames ∧ ∀ f ∈ frames, Answers f

theorem Idle.init (hp : Hpack ε δ) (fate : Nat → Option Nat) : Idle hp (.init hp fate) :=
  ⟨rfl, rfl, rfl, rfl, fun _ => rfl, [], rfl, fun _ hf => nomatch hf⟩

-- What the invariant depends on, but for the frames.
structure Undisturbed (c c' : Conn ε δ) : Prop where
  streams : c'.streams = c.streams
  nextId : c'.nextId = c.nextId
  enc : c'.enc = c.enc
  dec : c'.dec = c.dec
  reading : (c.closed = false → c.reading = true) → c'.closed = false → c'.reading = true

theorem Idle.next {c c' : Conn ε δ} (h : Idle hp c) (hsame : Undisturbed c c') (hframes : AnswersOnly c c') :
    Idle hp c' := by
  obtain ⟨frames, hlog, hall⟩ := h.frames
  obtain ⟨new, hlog', hall'⟩ := hframes
  refine ⟨hsame.streams.trans h.streams, hsame.nextId.trans h.nextId, hsame.enc.trans h.enc,
    hsame.dec.trans h.dec, hsame.reading h.reading, frames ++ new, ?_, fun f hf => ?_⟩
  · rw [hlog', hlog, List.append_assoc]
  · exact (List.mem_append.mp hf).elim (hall f) (hall' f)

theorem dec_finishHeaders (hp : Hpack ε δ) {c : Conn ε δ} (hopen : c.streams = []) :
    (c.finishHeaders hp).1.dec = c.dec := by
  unfold Conn.finishHeaders
  have hnone : c.hsid.filter (· ∈ c.streams) = none := by
    rw [hopen]
    cases c.hsid <;> rfl
  rw [hnone]
  rfl

-- No block is decoded while no stream is there to have it.
theorem dec_dispatch (hp : Hpack ε δ) {c : Conn ε δ} (hopen : c.streams = []) (f : Frame) :
    (c.dispatch hp f).1.dec = c.dec := by
  unfold Conn.dispatch
  split
  · unfold Conn.onHeaders
    dsimp only
    split
    · exact dec_finishHeaders hp hopen
    · rfl
  · unfold Conn.onContinuation
    dsimp only
    split
    · exact dec_finishHeaders hp hopen
    · rfl
  · unfold Conn.onData
    rw [if_neg (by rw [hopen]; exact fun h => nomatch h.1)]
  · unfold Conn.onSettings
    split
    · rfl
    · dsimp only
      split
      · rfl
      · rfl
  · unfold Conn.onPing
    split
    · rfl
    · rfl
  · unfold Conn.onGoaway
    simp only [Conn.failItems_eq]
    rfl
  · unfold Conn.onRst
    split
    · rfl
    · rfl
  · rfl
  · rfl

theorem undisturbed_exitReader {c c' : Conn ε δ} (h : H2.Conn.Stable c c') (hdec : c'.dec = c.dec)
    (exc : Exn) : Undisturbed c (c'.exitReader exc) := by
  have hk := h.trans (Conn.stable_exitReader c' exc)
  refine ⟨hk.streams, hk.nextId, hk.enc, ?_, fun _ hopen => ?_⟩
  · rw [← hdec]
    simp only [Conn.exitReader, Conn.failAll, Conn.failItems_eq]
  · rw [Conn.closed_exitReader] at hopen
    cases hopen

theorem undisturbed_kept {c c' : Conn ε δ} (h : H2.Conn.Kept c c') (hdec : c'.dec = c.dec) :
    Undisturbed c c' := by
  refine ⟨h.streams, h.nextId, h.enc, hdec, fun hreader hopen => ?_⟩
  rw [h.reading]
  apply hreader
  cases hclosed : c.closed with
  | false => rfl
  | true => rw [h.closed hclosed] at hopen; cases hopen

theorem Idle.step {c c' : Conn ε δ} {e : Event} (h : Idle hp c) (hs : H2.step hp c e = some c')
    (hno : ∀ args, e ≠ .send args) : Idle hp c' := by
  cases H2.step_happens hs with
  | frame f _ hw =>
      exact h.next (undisturbed_kept (Conn.kept_dispatch hp c f) (dec_dispatch hp h.streams f))
        (.dispatch hp h.streams hw)
  | raised f exc _ hw =>
      have hk := (Conn.kept_dispatch hp c f).toStable
      exact h.next (undisturbed_exitReader hk (dec_dispatch hp h.streams f) exc)
        ((AnswersOnly.dispatch hp h.streams hw).trans_log (H2.ControlOnly.log_failAll _ exc))
  | eof | stopped =>
      exact h.next (undisturbed_exitReader ⟨rfl, rfl, rfl, rfl, rfl⟩ rfl _)
        (.of_log (H2.ControlOnly.log_failAll _ _))
  | rst sid =>
      refine h.next (undisturbed_kept (Conn.kept_sendRst c sid) ?_) (.sendRst c sid)
      unfold Conn.sendRst
      split
      · rfl
      · rfl
  | close =>
      have hk := Conn.stable_close c
      refine h.next ⟨hk.streams, hk.nextId, hk.enc, ?_, fun hreader hopen => ?_⟩ (.of_log (Conn.log_close c))
      · rcases c.close_cases with ⟨_, he⟩ | ⟨_, he⟩ | ⟨_, he⟩
        · rw [he]
        · rw [he]
        · rw [he]
      · rw [Conn.reading_close]
        apply hreader
        rcases c.close_cases with ⟨_, he⟩ | ⟨_, he⟩ | ⟨_, he⟩
        · rw [he] at hopen; exact hopen
        · rw [he] at hopen; cases hopen
        · rw [he] at hopen; cases hopen
  | send args => exact absurd rfl (hno args)
  | pop sid =>
      refine h.next ⟨?_, rfl, rfl, rfl, fun hreader => hreader⟩ (.of_log rfl)
      show c.streams.erase sid = c.streams
      rw [h.streams]
      rfl
  | idle | acquire | refused => exact h.next ⟨rfl, rfl, rfl, rfl, fun hreader => hreader⟩ (.of_log rfl)

theorem Idle.run {fate : Nat → Option Nat} {events : List Event} {c : Conn ε δ}
    (hno : H2.sendsOf events = []) (hrun : Transition.run (H2.step hp) (.init hp fate) events = some c) :
    Idle hp c := by
  have hmeets : Transition.Meets (H2.step hp) (fun _ e => ∀ args, e ≠ .send args) (.init hp fate) events := by
    refine .of_forall fun e he _ args heq => ?_
    subst heq
    exact nomatch (List.filterMap_eq_nil_iff.mp hno _ he)
  exact Transition.invariant (Idle hp) (fun c e c' hidle hno hs => hidle.step hs hno) (.init hp fate)
    hmeets hrun

-- The record of a client with Firefox's settings, window and priority.
def firefoxFlight (fields : List Header) : FlightRecord where
  prefaceOk := true
  settings := [(.inl "HEADER_TABLE_SIZE", 65536), (.inl "ENABLE_PUSH", 0),
    (.inl "INITIAL_WINDOW_SIZE", 131072), (.inl "MAX_FRAME_SIZE", 16384)]
  settingsOrder := [1, 2, 4, 5]
  windowUpdate := some 12517377
  priorityFrames := [⟨1, 0, 0, 41, true⟩]
  pseudoHeaderOrder := ["method", "path", "authority", "scheme"]
  headers := fields
  akamaiFingerprint := some "1:65536;2:0;4:131072;5:16384|12517377|1|m,p,a,s"

-- What the record has before the request, and with its priority.
def firefoxOpening : FlightRecord where
  prefaceOk := true
  settings := [(.inl "HEADER_TABLE_SIZE", 65536), (.inl "ENABLE_PUSH", 0),
    (.inl "INITIAL_WINDOW_SIZE", 131072), (.inl "MAX_FRAME_SIZE", 16384)]
  settingsOrder := [1, 2, 4, 5]
  windowUpdate := some 12517377

theorem pseudoNames_append (fields fields' : List Header) :
    pseudoNames (fields ++ fields') = pseudoNames fields ++ pseudoNames fields' := by
  unfold pseudoNames
  rw [List.map_append, List.filterMap_append]

theorem pseudoNames_plain {fields : List Header} (h : ∀ field ∈ fields, field.1.toList.head? ≠ some ':') :
    pseudoNames fields = [] := by
  apply List.filterMap_eq_nil_iff.mpr
  intro name hname
  obtain ⟨field, hfield, rfl⟩ := List.mem_map.mp hname
  have hhead := h field hfield
  unfold pseudoName
  split
  · next heq => rw [heq] at hhead; exact absurd rfl hhead
  · rfl

def settingsFrame : Frame :=
  ⟨.settings, 0, 0, H2.FF_SETTINGS.flatMap fun s => H2.packU16 s.1 ++ H2.packU32 s.2⟩

theorem onFrame_settings : FlightRecord.onFrame hp { prefaceOk := true } [] settingsFrame.seen =
    .more { firefoxOpening with windowUpdate := none } [] := by
  have hentries : settingsEntries settingsFrame.payload = .ok H2.FF_SETTINGS := by decide
  have hread : settingsEntries settingsFrame.seen.payload = .ok H2.FF_SETTINGS := hentries
  unfold FlightRecord.onFrame
  rw [if_pos ⟨rfl, by decide⟩, hread]
  rfl

theorem onFrame_window : FlightRecord.onFrame hp { firefoxOpening with windowUpdate := none } []
    (H2.windowUpdate 0 H2.FF_CONN_WINDOW_INCREMENT).seen = .more firefoxOpening [] := by
  have hincrement : unpackU32 (H2.windowUpdate 0 H2.FF_CONN_WINDOW_INCREMENT).seen.payload % 2 ^ 31 =
      12517377 := by decide
  unfold FlightRecord.onFrame
  rw [if_neg (by decide), if_pos ⟨rfl, rfl⟩, if_pos (by decide), hincrement]
  rfl

theorem readFrames_opening (hp : Hpack ε δ) {more : Bytes} {conn : List Arrival} (hquiet : .timeout ∉ conn)
    (hconn : bytesOf conn = H2.openingFrames.flatMap Frame.encode ++ more) {fuel : Nat}
    (hfuel : weight conn < fuel) :
    ∃ conn' fuel', bytesOf conn' = more ∧ .timeout ∉ conn' ∧ weight conn' < fuel' ∧
      readFrames hp fuel { prefaceOk := true } [] conn = readFrames hp fuel' firefoxOpening [] conn' := by
  have hsettings : settingsFrame.legible := ⟨fun code h => (nomatch h), by decide⟩
  have hwindow : (H2.windowUpdate 0 H2.FF_CONN_WINDOW_INCREMENT).legible :=
    ⟨fun code h => (nomatch h), by decide⟩
  have hframes : H2.openingFrames = [settingsFrame, H2.windowUpdate 0 H2.FF_CONN_WINDOW_INCREMENT] := rfl
  rw [hframes, List.flatMap_cons, List.flatMap_cons, List.flatMap_nil, List.append_nil,
    List.append_assoc] at hconn
  obtain ⟨fuel, rfl⟩ := Nat.exists_eq_add_of_le' (Nat.lt_of_le_of_lt (Nat.zero_le _) hfuel)
  obtain ⟨conn₁, hbytes₁, hquiet₁, hless₁, hread₁⟩ :=
    readFrames_frame hp hsettings hquiet hconn fuel { prefaceOk := true } []
  obtain ⟨fuel', rfl⟩ := Nat.exists_eq_add_of_le' (show 0 < fuel by omega)
  obtain ⟨conn₂, hbytes₂, hquiet₂, hless₂, hread₂⟩ :=
    readFrames_frame hp hwindow hquiet₁ hbytes₁ fuel' { firefoxOpening with windowUpdate := none } []
  rw [onFrame_settings] at hread₁
  rw [onFrame_window] at hread₂
  exact ⟨conn₂, fuel', hbytes₂, hquiet₂, by omega, hread₁.trans hread₂⟩

theorem fingerprint_firefox : (firefoxFlight []).fingerprint =
    .ok "1:65536;2:0;4:131072;5:16384|12517377|1|m,p,a,s" := by
  decide

theorem onFrame_request {fields : List Header} {block : Bytes} (endStream : Bool)
    (hdecode : (hp.decode hp.decoder block).2 = .ok fields)
    (hpseudo : pseudoNames fields = ["method", "path", "authority", "scheme"]) :
    firefoxOpening.onFrame hp [] (H2.headersFrame 1 block endStream).seen = .done (firefoxFlight fields) := by
  obtain ⟨_, hpriority, _, hcomplete, _⟩ := H2.headersFlags endStream
  have hhas : (H2.headersFrame 1 block endStream).seen.has H2.F_PRIORITY = true := hpriority
  have hends : (H2.headersFrame 1 block endStream).seen.endHeaders = true := hcomplete
  have htype : (H2.headersFrame 1 block endStream).seen.ftype = .headers := rfl
  have hread : readPriority (H2.headersFrame 1 block endStream).seen.sid
      (H2.headersFrame 1 block endStream).seen.payload true = .ok ⟨1, 0, 0, 41, true⟩ := rfl
  have hblock : (H2.headersFrame 1 block endStream).seen.payload.drop 5 = block := rfl
  unfold FlightRecord.onFrame
  simp only [htype, hhas, hends, hread, hblock, reduceCtorEq, false_and, PRIORITY, if_false, if_true,
    Except.map]
  unfold FlightRecord.complete
  rw [List.nil_append, hdecode]
  dsimp only
  rw [hpseudo]
  have hfingerprint : FlightRecord.fingerprint { firefoxOpening with
      priorityFrames := firefoxOpening.priorityFrames ++ [⟨1, 0, 0, 41, true⟩]
      headers := fields
      pseudoHeaderOrder := ["method", "path", "authority", "scheme"] } = _ := fingerprint_firefox
  rw [hfingerprint]
  rfl

theorem pseudoNames_request (args : SendArgs) :
    pseudoNames [(":method", args.method), (":path", args.path), (":authority", args.authority),
      (":scheme", "https")] = ["method", "path", "authority", "scheme"] := by
  have hnames : [":method", ":path", ":authority", ":scheme"].filterMap pseudoName =
      ["method", "path", "authority", "scheme"] := by decide
  exact hnames

-- The end-to-end check of the handshake: whatever happens on the connection before
-- the first request, and however the octets are cut on the way, the record that the
-- capture server makes is Firefox's, with the fields of that request.
theorem flight_captured {sync : ε → δ → Prop} (hsync : H2.RoundTrips hp sync) {fate : Nat → Option Nat}
    {before : List Event} {c : Conn ε δ} (hno : H2.sendsOf before = [])
    (hrun : Transition.run (H2.step hp) (.init hp fate) before = some c) {args : SendArgs}
    (hwell : H2.sendsWell hp c (.send args)) (hwhole : ∀ w ∈ (c.send hp args).1.tp.log, w.cut = none)
    {lowered : List Header} (hlowered : H2.lowerNames args.headers = some lowered)
    (hplain : ∀ field ∈ lowered, field.1.toList.head? ≠ some ':') {segments : List (UInt8 × Bytes)}
    {more : Bytes}
    (hsegments : bytesOf (ofSegments segments) = PREFACE ++ (c.send hp args).1.wire ++ more) :
    readH2Request hp segments = some (.ok (firefoxFlight
      ([(":method", args.method), (":path", args.path), (":authority", args.authority),
        (":scheme", "https")] ++ lowered))) := by
  have hidle := Idle.run hno hrun
  obtain ⟨⟨sid, hok⟩, hfits⟩ := hwell
  obtain ⟨fields, block, data, hfields, hblock, _, _, _, hlog⟩ := H2.send_writes hok
  obtain rfl : [(":method", args.method), (":path", args.path), (":authority", args.authority),
      (":scheme", "https")] ++ lowered = fields := by
    unfold SendArgs.fields at hfields
    rw [hlowered] at hfields
    exact Option.some.inj hfields
  have hpseudo : pseudoNames ([(":method", args.method), (":path", args.path), (":authority", args.authority),
      (":scheme", "https")] ++ lowered) = ["method", "path", "authority", "scheme"] := by
    rw [pseudoNames_append, pseudoNames_plain hplain, List.append_nil]
    exact pseudoNames_request args
  have hdecode := hsync.decode _ _ _ _ hsync.start (hidle.enc ▸ hblock)
  obtain ⟨answers, hanswers, hall⟩ := hidle.frames
  rw [H2.wire_whole hwhole, hlog, hanswers, hidle.nextId, List.flatMap_append, List.flatMap_append,
    List.flatMap_cons, List.append_assoc, List.append_assoc, List.append_assoc,
    List.append_assoc] at hsegments
  have hquiet := ofSegments_quiet segments
  obtain ⟨conn, hread, hbytes, hlen, hquiet₀⟩ := @readn_eq PREFACE.length _ hquiet
  rw [hsegments, List.take_left] at hread
  rw [hsegments, List.drop_left] at hbytes
  unfold readH2Request
  dsimp only
  rw [hread]
  dsimp only
  obtain ⟨conn₁, fuel₁, hbytes₁, hquiet₁, hfuel₁, hread₁⟩ :=
    readFrames_opening hp hquiet₀ hbytes (Nat.lt_succ_self _)
  obtain ⟨conn₂, fuel₂, hbytes₂, hquiet₂, hfuel₂, hread₂⟩ :=
    readFrames_answers hp hall hquiet₁ hbytes₁ hfuel₁ firefoxOpening []
  obtain ⟨fuel, rfl⟩ := Nat.exists_eq_add_of_le' (Nat.lt_of_le_of_lt (Nat.zero_le _) hfuel₂)
  have hlegible : (H2.headersFrame 1 block (!(Body.bytes data).truthy)).legible :=
    @H2.legible_request 1 block data (hfits _ block hfields hblock) _ _ List.mem_cons_self
  obtain ⟨conn₃, _, _, _, hread₃⟩ :=
    readFrames_frame hp hlegible hquiet₂ hbytes₂ fuel firefoxOpening []
  rw [onFrame_request _ hdecode hpseudo] at hread₃
  rw [decide_eq_true rfl]
  exact hread₁.trans (hread₂.trans hread₃)

def responseFields : List Header := [(":status", "200"), ("content-length", "2")]

-- What `handle` writes behind the request: END_HEADERS on the block, then b"ok"
-- with END_STREAM, both on stream 1.
def responseFrames (block : Bytes) : List Frame := [⟨.headers, 4, 1, block⟩, ⟨.data, 1, 1, [111, 107]⟩]

theorem bytesOf_singles (octets : Bytes) : bytesOf (ofSegments (octets.map fun b => (b, []))) = octets := by
  induction octets with
  | nil => rfl
  | cons b octets ih => exact congrArg (b :: ·) ih

-- Behind the SETTINGS of the server, octet by octet.
theorem flight_captured_get :
    ∃ c, Transition.run (H2.step H2.getCodec) (.init H2.getCodec fun _ => none)
        [.frame ⟨.settings, 0, 0, []⟩] = some c ∧
      readH2Request H2.getCodec ((PREFACE ++ (c.send H2.getCodec H2.getRequest).1.wire ++ []).map
        fun b => (b, [])) = some (.ok (firefoxFlight (H2.getFields ++ []))) := by
  refine ⟨_, rfl, ?_⟩
  refine @flight_captured _ _ H2.getCodec _ H2.getCodec_roundTrips (fun _ => none)
    [.frame ⟨.settings, 0, 0, []⟩] _ rfl rfl H2.getRequest (H2.sendsWell_getRequest ⟨rfl, fun _ => rfl, ?_⟩ (by decide)) ?_ [] rfl
    (fun _ h => nomatch h) _ [] (bytesOf_singles _)
  · decide
  · decide

-- A send that succeeds opens its stream on a connection that is not closed.
theorem opened_send {c : Conn ε δ} {args : SendArgs} {sid : Nat} (hok : (c.send hp args).2 = .ok sid) :
    c.closed = false ∧ c.nextId ∈ (c.send hp args).1.streams ∧
      (c.send hp args).1.obj c.nextId = { sid := c.nextId, maxBytes := args.maxBytes } := by
  rw [c.send_snd] at hok
  rw [c.send_fst]
  obtain ⟨_, exc, he⟩ | ⟨fields, hopen, _, he⟩ := c.trySend_cases hp args
  · rw [he] at hok
    cases hok
  · obtain ⟨writes, hstate⟩ :=
      (c.allocate.register c.nextId args.maxBytes).emit_state hp c.nextId fields args.body
    rw [he]
    dsimp only
    rw [hstate]
    refine ⟨hopen, ?_, Function.update_self ..⟩
    show c.nextId ∈ if c.nextId ∈ c.streams then c.streams else c.streams ++ [c.nextId]
    split
    · assumption
    · exact List.mem_append_right _ List.mem_cons_self

-- The stream of the first request.
theorem awaiting_first {before : List Event} {c : Conn ε δ} (hno : H2.sendsOf before = [])
    (hrun : Transition.run (H2.step hp) (.init hp fun _ => none) before = some c) {args : SendArgs}
    {sid : Nat}
    (hok : (c.send hp args).2 = .ok sid) :
    H2.Awaiting (c.send hp args).1 [1] (fun _ => args.maxBytes) ∧ (c.send hp args).1.dec = hp.decoder := by
  have hidle := Idle.run hno hrun
  have hfate : c.tp.fate = fun _ => none :=
    Transition.invariant_always (fun c => c.tp.fate = fun _ => none)
      (fun c e c' hfate hs => (H2.fate_step hs).trans hfate) rfl hrun
  have hkept := Conn.sendKept_send hp c args
  obtain ⟨hopen, hstreams, hobj⟩ := opened_send hok
  rw [hidle.nextId] at hstreams hobj
  refine ⟨⟨?_, fun n => by rw [hkept.fate, hfate], fun other hother => ?_⟩, hkept.dec.trans hidle.dec⟩
  · rw [hkept.reading]
    exact hidle.reading hopen
  · obtain rfl := List.mem_singleton.mp hother
    exact ⟨hstreams, hobj⟩

-- The course of the answer, at its end.
def answered (dec : δ) : H2.Course δ :=
  (({ dec := dec } : H2.Course δ).add 1 (.block responseFields) false).add 1 (.data [111, 107]) true

-- The frames of the answer are a response, whatever passes by before them.
theorem course_response {block : Bytes} {dec : δ}
    (hdecode : hp.decode hp.decoder block = (dec, .ok responseFields)) {asides : List Frame}
    (hasides : ∀ f ∈ asides, f.aside ∧ f.onWire) :
    Transition.run (H2.Course.advance hp [1]) { dec := hp.decoder } (asides ++ responseFrames block) =
      some (answered dec) := by
  have haside : Transition.run (H2.Course.advance hp [1]) { dec := hp.decoder } asides =
      some { dec := hp.decoder } := by
    induction asides with
    | nil => rfl
    | cons f asides ih =>
        have hf := (hasides f List.mem_cons_self).1
        refine Transition.run_cons_eq_some.mpr ⟨_, (H2.Advances.aside rfl hf).advance, ?_⟩
        exact ih fun g hg => hasides g (List.mem_cons_of_mem _ hg)
  have hends : ((4 : UInt8) &&& H2.F_END_HEADERS != 0) = true := by decide
  have hfin : ((4 : UInt8) &&& H2.F_END_STREAM != 0) = false := by decide
  have hpadded : ((4 : UInt8) &&& H2.F_PADDED != 0) = false := by decide
  have hpriority : ((4 : UInt8) &&& H2.F_PRIORITY != 0) = false := by decide
  have hoffer : H2.Course.offer hp { dec := hp.decoder } ⟨1, block, (4 : UInt8) &&& H2.F_END_STREAM != 0⟩
      ((4 : UInt8) &&& H2.F_END_HEADERS != 0) =
        some (({ dec := dec } : H2.Course δ).add 1 (.block responseFields) false) := by
    rw [hends, hfin]
    simp only [H2.Course.offer, if_true, hdecode]
    rfl
  have hhead : H2.Advances hp [1] { dec := hp.decoder } ⟨.headers, 4, 1, block⟩
      (({ dec := dec } : H2.Course δ).add 1 (.block responseFields) false) :=
    .headers _ rfl rfl List.mem_cons_self rfl hpadded hpriority hoffer
  have hbody : H2.Advances hp [1] (({ dec := dec } : H2.Course δ).add 1 (.block responseFields) false)
      ⟨.data, 1, 1, [111, 107]⟩ (answered dec) :=
    .data rfl rfl List.mem_cons_self rfl (by decide)
  rw [Transition.run_append, haside, Option.bind_some]
  exact Transition.run_cons_eq_some.mpr ⟨_, hhead.advance,
    Transition.run_cons_eq_some.mpr ⟨_, hbody.advance, rfl⟩⟩

-- The other end of the check: the client takes the answer for what it is, with
-- other frames of the server before it.
theorem exchange_completes {sync : ε → δ → Prop} (hsync : H2.RoundTrips hp sync) {before : List Event}
    {c : Conn ε δ} (hno : H2.sendsOf before = [])
    (hrun : Transition.run (H2.step hp) (.init hp fun _ => none) before = some c) {args : SendArgs}
    {sid : Nat}
    (hok : (c.send hp args).2 = .ok sid) (hcap : args.maxBytes = 0 ∨ 2 ≤ args.maxBytes) {block : Bytes}
    (hblock : (hp.encode hp.encoder responseFields).2 = .ok block) (hlen : block.length < 2 ^ 24)
    {asides : List Frame} (hasides : ∀ f ∈ asides, f.aside ∧ f.onWire) :
    ∃ c', Transition.run (H2.step hp) (c.send hp args).1 ((asides ++ responseFrames block).map .frame) =
        some c' ∧ (c'.obj 1).done = true ∧
      Conn.outcome (c'.obj 1) = .ok ⟨some 200, [("content-length", "2")], [111, 107]⟩ := by
  obtain ⟨hawaiting, hdec⟩ := awaiting_first hno hrun hok
  have hdecode := hsync.decode _ _ _ _ hsync.start hblock
  have hcourse := @course_response _ _ hp block _ (Prod.ext rfl hdecode) asides hasides
  rw [← hdec] at hcourse
  have hwire : ∀ f ∈ asides ++ responseFrames block, f.onWire := by
    intro f hf
    rcases List.mem_append.mp hf with hf | hf
    · exact (hasides f hf).2
    · rcases List.mem_cons.mp hf with rfl | hf
      · exact ⟨hlen, show 1 < 2 ^ 31 by decide⟩
      · obtain rfl := List.mem_singleton.mp hf
        exact ⟨by decide, by decide⟩
  obtain ⟨c', hrun', htracks⟩ := H2.Tracks.run hawaiting hwire hcourse
  refine ⟨c', hrun', ?_⟩
  rcases htracks.stream 1 List.mem_cons_self with ⟨_, hst⟩ | ⟨hover, _⟩
  · rw [hst]
    exact ⟨rfl, rfl⟩
  · obtain ⟨hne, hlt⟩ := hover
    have htwo : args.maxBytes < 2 := hlt
    omega

-- A codec of one request and one response, with no tables.
def flightCodec : Hpack Unit Unit where
  encoder := ()
  decoder := ()
  encode _ fields := ((), if fields = H2.getFields then .ok (H2.getBlock false)
    else if fields = responseFields then .ok [0x88, 0x5c, 1, 50] else .error .hpackError)
  decode _ block := ((), if block = H2.getBlock false then .ok H2.getFields
    else if block = [0x88, 0x5c, 1, 50] then .ok responseFields else .error .hpackError)

theorem flightCodec_roundTrips : H2.RoundTrips flightCodec fun _ _ => True where
  start := trivial
  decode _ _ fields block _ h := by
    simp only [flightCodec] at h ⊢
    split at h
    · next hfields =>
      obtain rfl := Except.ok.inj h
      rw [if_pos rfl, hfields]
    · split at h
      · next hfields =>
        obtain rfl := Except.ok.inj h
        rw [if_neg (by decide), if_pos rfl, hfields]
      · cases h
  step _ _ _ _ _ _ := trivial

theorem exchange_completes_get :
    ∃ c c', Transition.run (H2.step flightCodec) (.init flightCodec fun _ => none) [.acquire] = some c ∧
      Transition.run (H2.step flightCodec) (c.send flightCodec H2.getRequest).1
        (([(⟨.settings, 0, 0, []⟩ : Frame)] ++ responseFrames [0x88, 0x5c, 1, 50]).map .frame) = some c' ∧
      (c'.obj 1).done = true ∧
      Conn.outcome (c'.obj 1) = .ok ⟨some 200, [("content-length", "2")], [111, 107]⟩ := by
  have hasides : ∀ f ∈ [(⟨.settings, 0, 0, []⟩ : Frame)], f.aside ∧ f.onWire := by
    intro f hf
    obtain rfl : f = ⟨.settings, 0, 0, []⟩ := List.mem_singleton.mp hf
    have hsix : 6 ∣ (⟨.settings, 0, 0, []⟩ : Frame).payload.length := by decide
    exact ⟨.inl ⟨rfl, hsix⟩, by decide⟩
  have hrun : Transition.run (H2.step flightCodec) (.init flightCodec fun _ => none) [.acquire] =
      some (Conn.init flightCodec fun _ => none).acquire := rfl
  have hok : ((Conn.init flightCodec fun _ => none).acquire.send flightCodec H2.getRequest).2 = .ok 1 := by
    decide
  obtain ⟨c', hanswer⟩ :=
    exchange_completes flightCodec_roundTrips rfl hrun hok (.inl rfl) rfl (by decide) hasides
  exact ⟨_, c', hrun, hanswer⟩

end NeverFox.Harness
