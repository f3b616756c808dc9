import NeverFox.H2.Streams
import NeverFox.H2.Wire
import Mathlib.Data.List.Forall2

namespace NeverFox.H2

variable {ε δ : Type}

-- What the server has of a request is what the caller sent, in DATA frames
-- that are neither empty nor too long, with END_STREAM on its last frame only.
structure Carries (args : SendArgs) (r : Request) : Prop where
  fields : ∃ lowered, lowerNames args.headers = some lowered ∧
    r.fields = [(":method", args.method), (":path", args.path), (":authority", args.authority),
      (":scheme", "https")] ++ lowered
  body : args.body = .bytes r.chunks.flatten
  sizes : ∀ chunk ∈ r.chunks, 1 ≤ chunk.length ∧ chunk.length ≤ 16384
  ends : r.ends = List.replicate r.chunks.length false ++ [true]

-- The octets are a sequence of frames from which the server gets the requests,
-- on the stream ids 1, 3, 5 and so on.
def Recovers (hp : Hpack ε δ) (bytes : Bytes) (sends : List SendArgs) : Prop :=
  ∃ frames s, parseFrames bytes = some frames ∧ frames.foldlM (Server.receive hp) (.start hp) = some s ∧
    s.requests.map Request.sid = (List.range sends.length).map (2 * · + 1) ∧
    List.Forall₂ Carries sends s.requests

-- The calls of `_send`, in the order of their locked sections.
def sendsOf (events : List Event) : List SendArgs :=
  events.filterMap fun e => match e with
    | .send args => some args
    | _ => none

-- A send succeeds, with a block that fits a frame.
def sendsWell (hp : Hpack ε δ) (c : Conn ε δ) : Event → Prop
  | .send args => (∃ sid, (c.send hp args).2 = .ok sid) ∧ ∀ fields block, args.fields = some fields →
      (hp.encode c.enc fields).2 = .ok block → block.length < 2 ^ 24 - 5
  | _ => True

theorem dataFrames_nil (sid : Nat) : dataFrames sid [] = [] := rfl

-- The splitting loop takes one frame off the front.
theorem dataFrames_cons (sid : Nat) {body : Bytes} (h : body ≠ []) :
    dataFrames sid body =
      ⟨.data, if body.length ≤ MAX_FRAME then F_END_STREAM else 0, sid, body.take MAX_FRAME⟩ ::
        dataFrames sid (body.drop MAX_FRAME) := by
  have hpos := List.length_pos_of_ne_nil h
  have hcount : (body.length + MAX_FRAME - 1) / MAX_FRAME =
      ((body.drop MAX_FRAME).length + MAX_FRAME - 1) / MAX_FRAME + 1 := by
    simp only [MAX_FRAME, List.length_drop]
    omega
  unfold dataFrames
  rw [hcount, List.range_succ_eq_map, List.map_cons, List.map_map]
  congr 1
  refine List.map_congr_left fun i _ => ?_
  simp only [Function.comp_apply, List.drop_drop, List.length_drop]
  have hdrop : (i + 1) * MAX_FRAME = MAX_FRAME + i * MAX_FRAME := by rw [Nat.succ_mul, Nat.add_comm]
  have hlast : body.length ≤ MAX_FRAME + i * MAX_FRAME + MAX_FRAME ↔
      body.length - MAX_FRAME ≤ i * MAX_FRAME + MAX_FRAME := by omega
  simp only [Nat.succ_eq_add_one, hdrop, hlast]

-- The flags of a request's first frame, with priority and without.
theorem headersFlags (endStream : Bool) :
    ((F_END_HEADERS ||| F_PRIORITY ||| if endStream then F_END_STREAM else 0) &&& F_PADDED != 0) = false ∧
    ((F_END_HEADERS ||| F_PRIORITY ||| if endStream then F_END_STREAM else 0) &&& F_PRIORITY != 0) = true ∧
    ((F_END_HEADERS ||| F_PRIORITY ||| if endStream then F_END_STREAM else 0) &&& F_END_STREAM != 0) =
      endStream ∧
    ((F_END_HEADERS ||| F_PRIORITY ||| if endStream then F_END_STREAM else 0) &&& F_END_HEADERS != 0) = true ∧
    ((F_END_HEADERS ||| if endStream then F_END_STREAM else 0) &&& F_PADDED != 0) = false ∧
    ((F_END_HEADERS ||| if endStream then F_END_STREAM else 0) &&& F_PRIORITY != 0) = false ∧
    ((F_END_HEADERS ||| if endStream then F_END_STREAM else 0) &&& F_END_STREAM != 0) = endStream ∧
    ((F_END_HEADERS ||| if endStream then F_END_STREAM else 0) &&& F_END_HEADERS != 0) = true := by
  cases endStream <;> decide

theorem headersFrame_reads (sid : Nat) (block : Bytes) (endStream : Bool) :
    fragment (headersFrame sid block endStream).seen = block ∧
      (headersFrame sid block endStream).seen.endStream = endStream ∧
      (headersFrame sid block endStream).seen.endHeaders = true := by
  obtain ⟨hpad, hpriority, hend, hcomplete, hpad', hpriority', hend', hcomplete'⟩ := headersFlags endStream
  unfold headersFrame Frame.seen fragment unpadded Frame.endStream Frame.endHeaders Frame.has
  by_cases hs : sid = 1
  · simp only [hs, ↓reduceIte, hpad, hpriority, hend, hcomplete, Bool.false_eq_true, and_self, and_true]
    rfl
  · simp only [hs, ↓reduceIte, hpad', hpriority', hend', hcomplete', Bool.false_eq_true, and_self]

namespace Server

variable {hp : Hpack ε δ} {s : Server δ}

theorem receive_headers (hpending : s.pending = none) {sid : Nat} (hsid : sid < 2 ^ 31) (hodd : sid % 2 = 1)
    (habove : ∀ r ∈ s.requests, r.sid < sid) {block : Bytes} (endStream : Bool) {dec : δ}
    {fields : List Header} (hdecode : hp.decode s.dec block = (dec, .ok fields)) :
    s.receive hp (headersFrame sid block endStream).seen =
      some { dec := dec, requests := s.requests ++ [⟨sid, fields, [], [endStream]⟩] } := by
  obtain ⟨hfragment, hend, hcomplete⟩ := headersFrame_reads sid block endStream
  have hseen : (headersFrame sid block endStream).seen.sid = sid := by
    rw [Frame.seen, headersFrame_sid, Nat.mod_eq_of_lt hsid]
  have htype : (headersFrame sid block endStream).seen.ftype = .headers := headersFrame_ftype _ _ _
  unfold receive
  simp only [hpending, htype, hseen]
  rw [if_pos ⟨hodd, habove⟩, hfragment, hend, hcomplete]
  simp only [offer, ↓reduceIte, hdecode]

theorem receive_data (hpending : s.pending = none) {before : List Request} {r : Request} {f : Frame}
    (hrequests : s.requests = before ++ [r]) (hf : f.ftype = .data) (hpadded : f.has F_PADDED = false)
    (hsid : r.sid = f.sid) (hopen : true ∉ r.ends)
    (hbefore : ∀ other ∈ before, other.sid ≠ f.sid) :
    s.receive hp f = some { s with
      requests := before ++
        [{ r with chunks := r.chunks ++ [f.payload], ends := r.ends ++ [f.endStream] }] } := by
  have hawaits : (s.requests.any fun r => r.awaits f.sid) = true := by
    simp [hrequests, Request.awaits, hsid, hopen]
  have hkeep : (before.map fun r => if r.sid = f.sid then
      { r with chunks := r.chunks ++ [unpadded f], ends := r.ends ++ [f.endStream] } else r) = before := by
    conv_rhs => rw [← List.map_id before]
    exact List.map_congr_left fun other ho => if_neg (hbefore other ho)
  have hpayload : unpadded f = f.payload := by simp [unpadded, hpadded]
  unfold receive
  simp only [hpending, hf, hawaits, ↓reduceIte]
  rw [hrequests, List.map_append, hkeep, List.map_singleton, if_pos hsid, hpayload]

-- One DATA frame of the request that came last.
theorem receive_piece {sid : Nat} (hsid : sid < 2 ^ 31) {fields : List Header} {before : List Request}
    (hbefore : ∀ other ∈ before, other.sid ≠ sid) {chunks : List Bytes} {ends : List Bool}
    (hopen : true ∉ ends) (hpending : s.pending = none)
    (hrequests : s.requests = before ++ [⟨sid, fields, chunks, ends⟩]) (payload : Bytes) (last : Prop)
    [Decidable last] :
    s.receive hp (⟨.data, if last then F_END_STREAM else 0, sid, payload⟩ : Frame).seen = some { s with
      requests := before ++ [⟨sid, fields, chunks ++ [payload], ends ++ [decide last]⟩] } := by
  have hseen : (⟨.data, if last then F_END_STREAM else 0, sid, payload⟩ : Frame).seen =
      ⟨.data, if last then F_END_STREAM else 0, sid, payload⟩ := by
    rw [Frame.seen, Nat.mod_eq_of_lt hsid]
  have hend : (⟨.data, if last then F_END_STREAM else 0, sid, payload⟩ : Frame).endStream = decide last := by
    unfold Frame.endStream Frame.has
    by_cases hl : last
    · simp only [hl, ↓reduceIte]
      decide
    · simp only [hl, ↓reduceIte]
      decide
  have hpadded : (⟨.data, if last then F_END_STREAM else 0, sid, payload⟩ : Frame).has F_PADDED = false := by
    unfold Frame.has
    by_cases hl : last
    · simp only [hl, ↓reduceIte]
      decide
    · simp only [hl, ↓reduceIte]
      decide
  rw [hseen, receive_data hpending hrequests rfl hpadded rfl hopen hbefore, hend]

-- The frames of a body, behind the frames of its request that came before.
theorem receive_body {sid : Nat} (hsid : sid < 2 ^ 31) {fields : List Header} {before : List Request}
    (hbefore : ∀ other ∈ before, other.sid ≠ sid) {body : Bytes} (hbody : body ≠ []) {chunks : List Bytes}
    {ends : List Bool} (hopen : true ∉ ends) {s : Server δ} (hpending : s.pending = none)
    (hrequests : s.requests = before ++ [⟨sid, fields, chunks, ends⟩]) :
    ∃ piece pieces, ((dataFrames sid body).map Frame.seen).foldlM (receive hp) s = some { s with
        requests := before ++ [⟨sid, fields, chunks ++ piece :: pieces,
          ends ++ (List.replicate pieces.length false ++ [true])⟩] } ∧
      (piece :: pieces).flatten = body ∧
      ∀ chunk ∈ piece :: pieces, 1 ≤ chunk.length ∧ chunk.length ≤ MAX_FRAME := by
  induction hn : body.length using Nat.strongRecOn generalizing body chunks ends s with
  | _ n ih =>
      have hpos := List.length_pos_of_ne_nil hbody
      rw [dataFrames_cons sid hbody, List.map_cons, List.foldlM_cons,
        receive_piece hsid hbefore hopen hpending hrequests]
      by_cases hlast : body.length ≤ MAX_FRAME
      · have hdone : body.drop MAX_FRAME = [] := List.drop_eq_nil_of_le hlast
        rw [hdone, dataFrames_nil, List.take_of_length_le hlast, decide_eq_true hlast]
        refine ⟨body, [], rfl, by simp, ?_⟩
        intro chunk hc
        obtain rfl := List.mem_singleton.mp hc
        exact ⟨hpos, hlast⟩
      · have hrest : body.drop MAX_FRAME ≠ [] := by
          simp only [ne_eq, List.drop_eq_nil_iff]
          exact hlast
        have hshorter : (body.drop MAX_FRAME).length < n := by
          simp only [List.length_drop, MAX_FRAME] at hlast ⊢
          omega
        rw [decide_eq_false hlast]
        have hopen' : true ∉ ends ++ [false] := by simpa using hopen
        obtain ⟨piece, pieces, hfold, hflatten, hsizes⟩ :=
          @ih _ hshorter (body.drop MAX_FRAME) hrest (chunks ++ [body.take MAX_FRAME]) (ends ++ [false])
            hopen' { s with requests := before ++
              [⟨sid, fields, chunks ++ [body.take MAX_FRAME], ends ++ [false]⟩] } hpending rfl rfl
        refine ⟨body.take MAX_FRAME, piece :: pieces, ?_, ?_, ?_⟩
        · refine hfold.trans ?_
          simp [List.replicate_succ]
        · rw [List.flatten_cons, hflatten, List.take_append_drop]
        · intro chunk hc
          rcases List.mem_cons.mp hc with rfl | hc
          · simp only [List.length_take, MAX_FRAME] at hlast ⊢
            omega
          · exact hsizes chunk hc

-- A whole request, on a new stream.
theorem receive_request (hpending : s.pending = none) {sid : Nat} (hsid : sid < 2 ^ 31)
    (hodd : sid % 2 = 1) (habove : ∀ r ∈ s.requests, r.sid < sid) {block : Bytes} {dec : δ}
    {fields : List Header} (hdecode : hp.decode s.dec block = (dec, .ok fields)) (data : Bytes) :
    ∃ chunks, ((headersFrame sid block (!(Body.bytes data).truthy) :: dataFrames sid data).map
        Frame.seen).foldlM (receive hp) s = some { dec := dec, requests := s.requests ++
          [⟨sid, fields, chunks, List.replicate chunks.length false ++ [true]⟩] } ∧
      chunks.flatten = data ∧ ∀ chunk ∈ chunks, 1 ≤ chunk.length ∧ chunk.length ≤ 16384 := by
  rw [List.map_cons, List.foldlM_cons, receive_headers hpending hsid hodd habove _ hdecode]
  by_cases hdata : data = []
  · subst hdata
    exact ⟨[], rfl, rfl, by simp⟩
  · have htruthy : (Body.bytes data).truthy = true := by simp [Body.truthy, hdata]
    rw [htruthy]
    obtain ⟨piece, pieces, hfold, hflatten, hsizes⟩ :=
      @receive_body ε δ hp sid hsid fields s.requests (fun r hr => Nat.ne_of_lt (habove r hr)) data hdata []
        [!true] (by simp) { dec := dec, requests := s.requests ++ [⟨sid, fields, [], [!true]⟩] } rfl rfl
    refine ⟨piece :: pieces, hfold.trans ?_, hflatten, hsizes⟩
    simp [List.replicate_succ]

-- Everything else the connection writes passes the server by.
theorem receive_control {s : Server δ} (hpending : s.pending = none) {frames : List Frame}
    (h : ∀ f ∈ frames, f.ftype ≠ .headers ∧ f.ftype ≠ .data ∧ f.ftype ≠ .continuation) :
    (frames.map Frame.seen).foldlM (receive hp) s = some s := by
  induction frames with
  | nil => rfl
  | cons f frames ih =>
      obtain ⟨hheaders, hdata, hcont⟩ := h f (by simp)
      have hpass : s.receive hp f.seen = some s := by
        unfold receive
        rw [hpending]
        have htype : f.seen.ftype = f.ftype := rfl
        cases hf : f.ftype <;> simp_all
      rw [List.map_cons, List.foldlM_cons, hpass]
      exact ih fun g hg => h g (by simp [hg])

end Server

-- A frame that the peer can read, and one that carries no part of a request.
def Frame.legible (f : Frame) : Prop :=
  (∀ code, f.ftype ≠ .unknown code) ∧ f.payload.length < 2 ^ 24

def Frame.control (f : Frame) : Prop :=
  f.legible ∧ f.ftype ≠ .headers ∧ f.ftype ≠ .data ∧ f.ftype ≠ .continuation

-- What is written in between is control frames only.
def ControlOnly (c c' : Conn ε δ) : Prop :=
  ∃ frames, c'.tp.log.flatMap Write.frames = c.tp.log.flatMap Write.frames ++ frames ∧
    ∀ f ∈ frames, f.control

namespace ControlOnly

theorem of_log {c c' : Conn ε δ} (h : c'.tp.log = c.tp.log) : ControlOnly c c' :=
  ⟨[], by rw [h, List.append_nil], by simp⟩

theorem trans {a b c : Conn ε δ} (h : ControlOnly a b) (h' : ControlOnly b c) : ControlOnly a c := by
  obtain ⟨frames, hlog, hall⟩ := h
  obtain ⟨frames', hlog', hall'⟩ := h'
  refine ⟨frames ++ frames', by rw [hlog', hlog, List.append_assoc], fun f hf => ?_⟩
  exact (List.mem_append.mp hf).elim (hall f) (hall' f)

theorem write (c : Conn ε δ) {frames : List Frame} (h : ∀ f ∈ frames, f.control) :
    ControlOnly c (c.write frames).1 :=
  ⟨frames, by simp [Conn.write], h⟩

theorem sendRst (c : Conn ε δ) (sid : Nat) : ControlOnly c (c.sendRst sid) := by
  rcases c.sendRst_eq sid with he | he <;> rw [he]
  · exact of_log rfl
  · exact write c (by simp [Frame.control, Frame.legible, rstStream, packU32])

theorem credit (c : Conn ε δ) (f : Frame) : ControlOnly c (c.write (Conn.dataCredit f)).1 := by
  refine write c fun g hg => ?_
  simp only [Conn.dataCredit, List.mem_cons] at hg
  rcases hg with rfl | hg
  · simp [Frame.control, Frame.legible, windowUpdate, packU32]
  · split at hg
    · cases hg
    · obtain rfl := List.mem_singleton.mp hg
      simp [Frame.control, Frame.legible, windowUpdate, packU32]

theorem settleData (c : Conn ε δ) (f : Frame) : ControlOnly c (c.settleData f) := by
  unfold Conn.settleData
  dsimp only
  split
  · exact (sendRst c f.sid).trans (of_log rfl)
  · split <;> exact of_log rfl

theorem log_finishHeaders (hp : Hpack ε δ) (c : Conn ε δ) : (c.finishHeaders hp).1.tp.log = c.tp.log := by
  unfold Conn.finishHeaders
  split
  · rfl
  · dsimp only
    split
    · rfl
    · split
      · rfl
      · split <;> rfl

theorem log_failAll (c : Conn ε δ) (exc : Exn) : (c.failAll exc).tp.log = c.tp.log := by
  simp only [Conn.failAll, Conn.failItems_eq]

theorem dispatch (hp : Hpack ε δ) (c : Conn ε δ) {f : Frame} (hf : f.onWire) :
    ControlOnly c (c.dispatch hp f).1 := by
  unfold Conn.dispatch
  split
  · unfold Conn.onHeaders
    dsimp only
    split
    · exact of_log (log_finishHeaders hp _)
    · exact of_log rfl
  · unfold Conn.onContinuation
    dsimp only
    split
    · exact of_log (log_finishHeaders hp _)
    · exact of_log rfl
  · have hadd : ControlOnly c (c.addChunk f) := of_log rfl
    rcases c.onData_cases f with ⟨_, he⟩ | ⟨_, ⟨_, he⟩ | ⟨_, _, he⟩ | ⟨exc, he⟩⟩ <;> rw [he]
    · exact of_log rfl
    · exact hadd.trans (settleData _ f)
    · exact hadd.trans ((credit _ f).trans (settleData _ f))
    · exact hadd.trans (credit _ f)
  · unfold Conn.onSettings
    split
    · exact of_log rfl
    · dsimp only
      split
      · exact of_log rfl
      · exact (of_log rfl).trans (write _ (by simp [Frame.control, Frame.legible, settingsAck]))
  · unfold Conn.onPing
    split
    · exact of_log rfl
    · exact write c (by simpa [Frame.control, Frame.legible, pingAck] using hf.1)
  · unfold Conn.onGoaway
    refine of_log ?_
    simp only [Conn.failItems_eq]
    rfl
  · unfold Conn.onRst
    split <;> exact of_log rfl
  all_goals exact of_log rfl

-- Only a send writes anything else.
theorem step {hp : Hpack ε δ} {c c' : Conn ε δ} {e : Event} (hs : H2.step hp c e = some c')
    (hno : ∀ args, e ≠ .send args) : ControlOnly c c' ∧ c'.enc = c.enc ∧ c'.nextId = c.nextId := by
  have hexit : ∀ (c : Conn ε δ) exc, ControlOnly c (c.exitReader exc) :=
    fun c exc => of_log (log_failAll c exc)
  cases step_happens hs with
  | frame f _ hw =>
      have hk := Conn.kept_dispatch hp c f
      exact ⟨dispatch hp c hw, hk.enc, hk.nextId⟩
  | raised f exc _ hw =>
      have hk := (Conn.kept_dispatch hp c f).toStable.trans (Conn.stable_exitReader _ exc)
      exact ⟨(dispatch hp c hw).trans (hexit _ exc), hk.enc, hk.nextId⟩
  | eof | stopped =>
      have hk := Conn.stable_exitReader c Conn.peerClosed
      exact ⟨hexit _ _, hk.enc, hk.nextId⟩
  | rst sid =>
      have hk := Conn.kept_sendRst c sid
      exact ⟨sendRst c sid, hk.enc, hk.nextId⟩
  | close =>
      have hk := Conn.stable_close c
      exact ⟨of_log (Conn.log_close c), hk.enc, hk.nextId⟩
  | send args => exact absurd rfl (hno args)
  | idle | acquire | refused | pop => exact ⟨of_log rfl, rfl, rfl⟩

end ControlOnly

-- What a send that succeeds has written, and how it leaves the connection.
theorem send_writes {hp : Hpack ε δ} {c : Conn ε δ} {args : SendArgs} {sid : Nat}
    (h : (c.send hp args).2 = .ok sid) :
    ∃ fields block data, args.fields = some fields ∧ (hp.encode c.enc fields).2 = .ok block ∧
      args.body = .bytes data ∧ (c.send hp args).1.enc = (hp.encode c.enc fields).1 ∧
      (c.send hp args).1.nextId = c.nextId + 2 ∧
      (c.send hp args).1.tp.log.flatMap Write.frames = c.tp.log.flatMap Write.frames ++
        headersFrame c.nextId block (!(Body.bytes data).truthy) :: dataFrames c.nextId data := by
  rw [c.send_snd] at h
  rw [c.send_fst]
  rcases c.trySend_cases hp args with ⟨_, exc, he⟩ | ⟨fields, _, hfields, he⟩
  · rw [he] at h
    cases h
  · rw [he] at h ⊢
    rcases (c.allocate.register c.nextId args.maxBytes).emit_cases hp c.nextId fields args.body with
      ⟨exc, _, hm⟩ | ⟨block, data, hblock, hbody, _, hm⟩
    · rw [hm] at h
      cases h
    · rw [hm, hbody]
      refine ⟨fields, block, data, hfields, hblock, rfl, rfl, rfl, ?_⟩
      simp [Conn.write, Conn.release, Conn.setEncoder, Conn.register, Conn.allocate]

theorem legible_request {sid : Nat} {block data : Bytes} (hblock : block.length < 2 ^ 24 - 5)
    (endStream : Bool) : ∀ f ∈ headersFrame sid block endStream :: dataFrames sid data, f.legible := by
  intro f hf
  rcases List.mem_cons.mp hf with rfl | hf
  · refine ⟨by simp, ?_⟩
    unfold headersFrame
    dsimp only
    split <;> simp [FF_HEADERS_PRIORITY, packU32] <;> omega
  · refine ⟨by simp [dataFrames_ftype sid data f hf], ?_⟩
    obtain ⟨i, _, rfl⟩ := List.mem_map.mp hf
    simp only [List.length_take, MAX_FRAME]
    omega

-- The codec as the claims of its package have it: the two states go together,
-- and in step every block decodes to what was encoded.
structure RoundTrips (hp : Hpack ε δ) (sync : ε → δ → Prop) : Prop where
  start : sync hp.encoder hp.decoder
  decode : ∀ enc dec fields block, sync enc dec → (hp.encode enc fields).2 = .ok block →
    (hp.decode dec block).2 = .ok fields
  step : ∀ enc dec fields block, sync enc dec → (hp.encode enc fields).2 = .ok block →
    sync (hp.encode enc fields).1 (hp.decode dec block).1

-- What the server knows once it has read everything written so far.
structure Heard (hp : Hpack ε δ) (sync : ε → δ → Prop) (c : Conn ε δ) (sends : List SendArgs)
    (s : Server δ) : Prop where
  frames : ((c.tp.log.flatMap Write.frames).map Frame.seen).foldlM (Server.receive hp) (.start hp) = some s
  legible : ∀ f ∈ c.tp.log.flatMap Write.frames, f.legible
  pending : s.pending = none
  sync : sync c.enc s.dec
  next : c.nextId = 2 * sends.length + 1
  sids : s.requests.map Request.sid = (List.range sends.length).map (2 * · + 1)
  carries : List.Forall₂ Carries sends s.requests

namespace Heard

variable {hp : Hpack ε δ} {sync : ε → δ → Prop} {c c' : Conn ε δ} {sends : List SendArgs} {s : Server δ}

theorem init (hsync : RoundTrips hp sync) (fate : Nat → Option Nat) :
    Heard hp sync (.init hp fate) [] (.start hp) := by
  refine ⟨rfl, ?_, rfl, hsync.start, rfl, rfl, .nil⟩
  simp [Conn.init, openingFrames, Frame.legible, windowUpdate, packU32, packU16, FF_SETTINGS]

theorem control (h : Heard hp sync c sends s) (hcontrol : ControlOnly c c') (henc : c'.enc = c.enc)
    (hnext : c'.nextId = c.nextId) : Heard hp sync c' sends s := by
  obtain ⟨frames, hlog, hall⟩ := hcontrol
  refine ⟨?_, ?_, h.pending, henc ▸ h.sync, hnext.trans h.next, h.sids, h.carries⟩
  · rw [hlog, List.map_append, List.foldlM_append, h.frames]
    exact Server.receive_control h.pending fun f hf => (hall f hf).2
  · intro f hf
    rw [hlog] at hf
    exact (List.mem_append.mp hf).elim (h.legible f) fun hf => (hall f hf).1

theorem send (hsync : RoundTrips hp sync) (h : Heard hp sync c sends s) {args : SendArgs}
    (hwell : sendsWell hp c (.send args)) (hlow : sends.length < 2 ^ 30) :
    ∃ s', Heard hp sync (c.send hp args).1 (sends ++ [args]) s' := by
  obtain ⟨⟨sid, hok⟩, hfits⟩ := hwell
  obtain ⟨fields, block, data, hfields, hblock, hbody, henc, hnext, hlog⟩ := send_writes hok
  have hodd : c.nextId % 2 = 1 := by
    have hn := h.next
    omega
  have hlt : c.nextId < 2 ^ 31 := by
    have hn := h.next
    omega
  have habove : ∀ r ∈ s.requests, r.sid < c.nextId := by
    intro r hr
    have hm : r.sid ∈ s.requests.map Request.sid := List.mem_map_of_mem hr
    rw [h.sids] at hm
    obtain ⟨i, hi, he⟩ := List.mem_map.mp hm
    have hi' := List.mem_range.mp hi
    have hn := h.next
    omega
  have hdecode : hp.decode s.dec block = ((hp.decode s.dec block).1, .ok fields) :=
    Prod.ext rfl (hsync.decode _ _ _ _ h.sync hblock)
  obtain ⟨chunks, hfold, hflatten, hsizes⟩ :=
    Server.receive_request h.pending hlt hodd habove hdecode data
  refine ⟨{ dec := (hp.decode s.dec block).1, requests := s.requests ++
    [⟨c.nextId, fields, chunks, List.replicate chunks.length false ++ [true]⟩] }, ?_, ?_, rfl, ?_, ?_, ?_, ?_⟩
  · rw [hlog, List.map_append, List.foldlM_append, h.frames]
    exact hfold
  · intro f hf
    rw [hlog] at hf
    exact (List.mem_append.mp hf).elim (h.legible f)
      (legible_request (hfits fields block hfields hblock) _ f)
  · rw [henc]
    exact hsync.step _ _ _ _ h.sync hblock
  · rw [hnext, h.next, List.length_append, List.length_singleton]
    omega
  · rw [List.map_append, h.sids, List.length_append, List.length_singleton, List.range_succ,
      List.map_append]
    simp only [List.map_cons, List.map_nil, h.next]
  · refine List.rel_append h.carries (.cons ⟨?_, ?_, hsizes, rfl⟩ .nil)
    · obtain ⟨lowered, hlowered, rfl⟩ := Option.map_eq_some_iff.mp hfields
      exact ⟨lowered, hlowered, rfl⟩
    · rw [hbody, hflatten]

end Heard

theorem sendsOf_foldl (events : List Event) (sends : List SendArgs) :
    events.foldl (fun sends e => sends ++ sendsOf [e]) sends = sends ++ sendsOf events := by
  induction events generalizing sends with
  | nil => simp [sendsOf]
  | cons e events ih =>
      have hcons : sendsOf (e :: events) = sendsOf [e] ++ sendsOf events := by
        unfold sendsOf
        rw [← List.filterMap_append]
        rfl
      rw [List.foldl_cons, ih, hcons, List.append_assoc]

-- The server keeps up as long as the ids last.
theorem heard_run {hp : Hpack ε δ} {sync : ε → δ → Prop} (hsync : RoundTrips hp sync)
    (fate : Nat → Option Nat) {events : List Event} {c : Conn ε δ}
    (hwell : Transition.Meets (step hp) (sendsWell hp) (.init hp fate) events)
    (hrun : Transition.run (step hp) (.init hp fate) events = some c) :
    (sendsOf events).length ≤ 2 ^ 30 → ∃ s, Heard hp sync c (sendsOf events) s := by
  have hsim := Transition.simulation (fun sends e => sends ++ sendsOf [e])
    (fun c sends => sends.length ≤ 2 ^ 30 → ∃ s, Heard hp sync c sends s) ?_
    (fun _ => ⟨_, Heard.init hsync fate⟩) hwell hrun
  · rw [sendsOf_foldl, List.nil_append] at hsim
    exact hsim
  · intro c sends e next h hok hs hle
    rw [List.length_append] at hle
    obtain ⟨s, hs'⟩ := h (by omega)
    cases e with
    | send args =>
        obtain rfl := Option.some.inj hs
        have hone : sendsOf [Event.send args] = [args] := rfl
        rw [hone] at hle ⊢
        rw [List.length_singleton] at hle
        exact hs'.send hsync hok (by omega)
    | _ =>
        obtain ⟨hcontrol, henc, hnext⟩ := ControlOnly.step hs (by simp)
        have hnone : ∀ e : Event, sendsOf [e] = [] → sends ++ sendsOf [e] = sends :=
          fun e he => by rw [he, List.append_nil]
        rw [hnone _ rfl]
        exact ⟨s, hs'.control hcontrol henc hnext⟩

-- No server recovers a request whose id does not fit.
theorem recovers_length {hp : Hpack ε δ} {bytes : Bytes} {sends : List SendArgs}
    (h : Recovers hp bytes sends) : sends.length ≤ 2 ^ 30 := by
  obtain ⟨frames, s, hparse, hfold, hsids, _⟩ := h
  have hframes : ∀ f ∈ frames, f.sid < 2 ^ 31 :=
    Codec.parseAll_forall (fun _ _ _ hp => parse_sid hp) hparse
  have hlow := Server.foldlM_sids hframes (s := Server.start hp) (by rintro _ ⟨⟩)
    (by simp [Server.start]) hfold
  by_contra hlong
  have hm : 2 * 2 ^ 30 + 1 ∈ s.requests.map Request.sid := by
    rw [hsids]
    exact List.mem_map.mpr ⟨2 ^ 30, List.mem_range.mpr (by omega), rfl⟩
  obtain ⟨r, hr, he⟩ := List.mem_map.mp hm
  have hsid := hlow r hr
  omega

-- The requests survive the wire, in their order and on their stream ids,
-- exactly as long as the ids fit the 31 bits of a frame header.
theorem requests_survive_iff (hp : Hpack ε δ) (sync : ε → δ → Prop) (hsync : RoundTrips hp sync)
    (fate : Nat → Option Nat) (events : List Event) (c : Conn ε δ)
    (hwell : Transition.Meets (step hp) (sendsWell hp) (.init hp fate) events)
    (hrun : Transition.run (step hp) (.init hp fate) events = some c)
    (hwhole : ∀ w ∈ c.tp.log, w.cut = none) :
    Recovers hp c.wire (sendsOf events) ↔ (sendsOf events).length ≤ 2 ^ 30 := by
  constructor
  · exact recovers_length
  · intro hlow
    obtain ⟨s, hheard⟩ := heard_run hsync fate hwell hrun hlow
    refine ⟨_, s, ?_, hheard.frames, hheard.sids, hheard.carries⟩
    rw [wire_whole hwhole]
    exact parseFrames_flatMap hheard.legible

-- A codec of one field list, whose :authority goes into the dynamic table of
-- either side with the first block.
def getFields : List Header :=
  [(":method", "GET"), (":path", "/"), (":authority", "a.example"), (":scheme", "https")]

def getBlock (known : Bool) : Bytes :=
  if known then [0x82, 0x84, 0xbe, 0x87]
  else [0x82, 0x84, 0x41, 0x87, 0x1a, 0xe5, 0xf2, 0x3a, 0x6b, 0xa0, 0xbf, 0x87]

def getCodec : Hpack Bool Bool where
  encoder := false
  decoder := false
  encode known fields := if fields = getFields then (true, .ok (getBlock known)) else (known, .error .hpackError)
  decode known block := if block = getBlock known then (true, .ok getFields) else (known, .error .hpackError)

theorem getCodec_roundTrips : RoundTrips getCodec (· = ·) where
  start := rfl
  decode := by
    rintro known _ fields block rfl h
    by_cases hf : fields = getFields
    · simp only [getCodec, hf, ↓reduceIte, Except.ok.injEq] at h
      simp [getCodec, ← h, hf]
    · simp [getCodec, hf] at h
  step := by
    rintro known _ fields block rfl h
    by_cases hf : fields = getFields
    · simp only [getCodec, hf, ↓reduceIte, Except.ok.injEq] at h
      simp [getCodec, ← h, hf]
    · simp [getCodec, hf] at h

-- A connection whose writes have all gone well and will.
structure Unhurt (c : Conn ε δ) : Prop where
  closed : c.closed = false
  fate : ∀ i, c.tp.fate i = none
  log : ∀ w ∈ c.tp.log, w.cut = none

theorem Unhurt.init (hp : Hpack ε δ) : Unhurt (.init hp fun _ => none) := by
  refine ⟨rfl, fun _ => rfl, ?_⟩
  simp [Conn.init]

theorem encode_getFields (known : Bool) :
    getCodec.encode known getFields = (true, .ok (getBlock known)) := by
  simp [getCodec]

theorem packs_getBlock {sid : Nat} (hsid : sid < 2 ^ 32) (known endStream : Bool) :
    (headersFrame sid (getBlock known) endStream).packs = true := by
  have hlen : (getBlock known).length ≤ 12 := by cases known <;> decide
  unfold headersFrame Frame.packs
  dsimp only
  split <;> simp [FF_HEADERS_PRIORITY, packU32] <;> omega

-- There the request goes out, on any id that struct.pack accepts.
theorem Unhurt.send {c : Conn Bool Bool} (h : Unhurt c) (hsid : c.nextId < 2 ^ 32) :
    Unhurt (c.send getCodec getRequest).1 ∧ (c.send getCodec getRequest).1.nextId = c.nextId + 2 ∧
      (c.send getCodec getRequest).2 = .ok c.nextId := by
  rw [c.send_fst, c.send_snd]
  rcases c.trySend_cases getCodec getRequest with ⟨hbad, _⟩ | ⟨fields, _, hfields, he⟩
  · rcases hbad with hc | hnone
    · exact absurd (hc.symm.trans h.closed) (by decide)
    · exact absurd hnone (by decide)
  · obtain rfl : getFields = fields := Option.some.inj hfields
    rw [he]
    rcases (c.allocate.register c.nextId getRequest.maxBytes).emit_cases getCodec c.nextId getFields
      getRequest.body with ⟨exc, hbad, _⟩ | ⟨block, data, _, _, _, hm⟩
    · rcases hbad with hblock | ⟨truthy, hbody⟩ | ⟨block, hblock, hpacks⟩
      · exact absurd (congrArg Prod.snd (encode_getFields _)) (hblock _)
      · cases hbody
      · obtain rfl : getBlock _ = block := Except.ok.inj
          ((congrArg Prod.snd (encode_getFields _)).symm.trans hblock)
        rw [packs_getBlock hsid] at hpacks
        cases hpacks
    · have hquiet : ∀ enc frames, (((c.allocate.register c.nextId getRequest.maxBytes).setEncoder
          enc).write frames).2 = none := fun enc => Conn.write_quiet h.fate
      rw [hm, hquiet]
      refine ⟨⟨h.closed, h.fate, fun w hw => ?_⟩, rfl, rfl⟩
      rcases List.mem_append.mp hw with hw | hw
      · exact h.log w hw
      · obtain rfl := List.mem_singleton.mp hw
        exact h.fate _

theorem sendsWell_getRequest {c : Conn Bool Bool} (h : Unhurt c) (hsid : c.nextId < 2 ^ 32) :
    sendsWell getCodec c (.send getRequest) := by
  refine ⟨⟨_, (h.send hsid).2.2⟩, fun fields block hfields hblock => ?_⟩
  obtain rfl : getFields = fields := Option.some.inj hfields
  obtain rfl := Except.ok.inj ((congrArg Prod.snd (encode_getFields c.enc)).symm.trans hblock)
  cases c.enc <;> decide

-- So as many of them succeed as there are ids.
theorem Unhurt.sends (n : Nat) {c : Conn Bool Bool} (h : Unhurt c) (hn : c.nextId + 2 * n < 2 ^ 32) :
    Transition.Meets (step getCodec) (sendsWell getCodec) c (List.replicate n (.send getRequest)) ∧
      ∃ c', Transition.run (step getCodec) c (List.replicate n (.send getRequest)) = some c' ∧
        Unhurt c' := by
  induction n generalizing c with
  | zero => exact ⟨trivial, c, rfl, h⟩
  | succ n ih =>
      obtain ⟨hnext, hid, _⟩ := h.send (by omega)
      obtain ⟨hmeets, c', hrun, hc'⟩ := ih hnext (by omega)
      exact ⟨⟨sendsWell_getRequest h (by omega), hmeets⟩, c', hrun, hc'⟩

theorem sendsOf_replicate (n : Nat) (args : SendArgs) :
    sendsOf (List.replicate n (.send args)) = List.replicate n args :=
  List.filterMap_replicate_of_some rfl

-- Two requests, the second of which refers to the table entry of the first,
-- with a PING and a SETTINGS frame of the server in between.
theorem requests_survive_two :
    ∃ c, Transition.run (step getCodec) (.init getCodec fun _ => none)
        [.send getRequest, .frame ⟨.ping, 0, 0, [0, 1, 2, 3, 4, 5, 6, 7]⟩, .frame ⟨.settings, 0, 0, []⟩,
          .send getRequest] = some c ∧
      Recovers getCodec c.wire [getRequest, getRequest] := by
  refine ⟨_, rfl, ?_⟩
  refine (requests_survive_iff getCodec _ getCodec_roundTrips (fun _ => none)
    [.send getRequest, .frame ⟨.ping, 0, 0, [0, 1, 2, 3, 4, 5, 6, 7]⟩, .frame ⟨.settings, 0, 0, []⟩,
      .send getRequest] _ ?_ rfl ?_).mpr (by decide)
  · refine ⟨sendsWell_getRequest (.init getCodec) (by decide), trivial, trivial,
      sendsWell_getRequest ⟨rfl, fun _ => rfl, ?_⟩ (by decide), trivial⟩
    decide
  · decide

-- The id of the request after 2 ^ 30 others loses its top bit at the server,
-- where it is the first stream once more.
theorem request_lost :
    ¬∀ (events : List Event) (c : Conn Bool Bool),
      Transition.Meets (step getCodec) (sendsWell getCodec) (.init getCodec fun _ => none) events →
      Transition.run (step getCodec) (.init getCodec fun _ => none) events = some c →
      (∀ w ∈ c.tp.log, w.cut = none) → Recovers getCodec c.wire (sendsOf events) := by
  intro h
  obtain ⟨hmeets, c, hrun, hc⟩ := (Unhurt.init getCodec).sends (2 ^ 30 + 1) (by decide)
  have hlow := recovers_length (h _ c hmeets hrun hc.log)
  rw [sendsOf_replicate, List.length_replicate] at hlow
  omega

end NeverFox.H2
