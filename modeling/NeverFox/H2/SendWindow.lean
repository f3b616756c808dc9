import NeverFox.H2.Requests

namespace NeverFox.H2

variable {ε δ : Type}

-- What RFC 9113 lets a sender send: the initial window of a stream and the
-- increments it was granted, and the window of the connection with its own.
-- The connection under verification keeps none of it.
structure Credit where
  initial : Nat := 65535
  granted : Nat → Nat := fun _ => 0
  connection : Nat := 65535

namespace Credit

def stream (credit : Credit) (sid : Nat) : Nat := credit.initial + credit.granted sid

-- SETTINGS_INITIAL_WINDOW_SIZE out of the entries of a SETTINGS payload: the last one counts.
def readInitial : Bytes → Nat → Nat
  | hi :: lo :: a :: b :: c :: d :: rest, initial =>
      readInitial rest (if hi.toNat * 256 + lo.toNat = 4 then unpackU32 [a, b, c, d] else initial)
  | _, initial => initial

def grant (credit : Credit) (sid increment : Nat) : Credit :=
  if sid = 0 then { credit with connection := credit.connection + increment }
  else { credit with granted := Function.update credit.granted sid (credit.granted sid + increment) }

def receive (credit : Credit) (f : Frame) : Credit :=
  match f.ftype with
  | .settings =>
      if f.has F_ACK then credit else { credit with initial := readInitial f.payload credit.initial }
  | .windowUpdate => credit.grant f.sid (unpackU32 f.payload % 2 ^ 31)
  | _ => credit

def observe (credit : Credit) : Event → Credit
  | .frame f => credit.receive f
  | _ => credit

theorem stream_le_grant (credit : Credit) (sid increment other : Nat) :
    credit.stream other ≤ (credit.grant sid increment).stream other := by
  unfold grant stream
  split
  · exact Nat.le_refl _
  · by_cases ho : other = sid
    · subst ho
      simp only [Function.update_self]
      omega
    · simp only [Function.update_of_ne ho, Nat.le_refl]

theorem connection_le_receive (credit : Credit) (f : Frame) :
    credit.connection ≤ (credit.receive f).connection := by
  unfold receive
  split
  · split <;> exact Nat.le_refl _
  · unfold grant
    split
    · exact Nat.le_add_right _ _
    · exact Nat.le_refl _
  · exact Nat.le_refl _

-- Only SETTINGS can take back what a stream was given.
theorem stream_le_receive (credit : Credit) (f : Frame) (hf : f.ftype ≠ .settings) (sid : Nat) :
    credit.stream sid ≤ (credit.receive f).stream sid := by
  unfold receive
  split
  · rename_i ht
    exact absurd ht hf
  · exact credit.stream_le_grant _ _ sid
  · exact Nat.le_refl _

end Credit

-- The payload octets of the picked frames among the first n octets of the frames.
def octetsAmong (pick : Frame → Bool) : List Frame → Nat → Nat
  | [], _ => 0
  | f :: rest, n =>
      (if pick f then min f.payload.length (n - 9) else 0) + octetsAmong pick rest (n - f.encode.length)

def Write.octets (pick : Frame → Bool) (w : Write) : Nat := octetsAmong pick w.frames w.bytes.length

def isData (f : Frame) : Bool := f.ftype = .data

def dataOn (sid : Nat) (f : Frame) : Bool := f.ftype = .data && f.sid = sid

namespace Conn

-- The octets of the picked frames written so far.
def sent (c : Conn ε δ) (pick : Frame → Bool) : Nat := (c.tp.log.map (Write.octets pick)).sum

-- The write that a send comes to, if it comes to one.
def upload (hp : Hpack ε δ) (c : Conn ε δ) (args : SendArgs) : Option Write :=
  match c.closed, args.fields, args.body with
  | false, some fields, .bytes data =>
      match (hp.encode c.enc fields).2 with
      | .ok block =>
          let head := headersFrame c.nextId block (!args.body.truthy)
          if head.packs then some ⟨head :: dataFrames c.nextId data, c.tp.fate c.tp.log.length⟩
          else none
      | .error _ => none
  | _, _, _ => none

-- The DATA octets it puts on the wire.
def uploaded (hp : Hpack ε δ) (c : Conn ε δ) (args : SendArgs) : Nat :=
  match c.upload hp args with
  | some w => w.octets isData
  | none => 0

-- The HEADERS frame of a send that gets as far as its write.
def head (hp : Hpack ε δ) (c : Conn ε δ) (args : SendArgs) : Option Frame :=
  match c.closed, args.fields with
  | false, some fields =>
      match (hp.encode c.enc fields).2 with
      | .ok block =>
          let head := headersFrame c.nextId block (!args.body.truthy)
          if head.packs then some head else none
      | .error _ => none
  | _, _ => none

end Conn

-- The octets of a body that go out with the first octets of its frames.
def carried (length room : Nat) : Nat :=
  min length (room / (9 + MAX_FRAME) * MAX_FRAME + (room % (9 + MAX_FRAME) - 9))

-- The octets of its body that a request which is written has to send: all of
-- them, and of a write that breaks off those it gets to.
def Conn.due (hp : Hpack ε δ) (c : Conn ε δ) (args : SendArgs) : Nat :=
  match args.body, c.head hp args with
  | .bytes data, some head =>
      match c.tp.fate c.tp.log.length with
      | none => data.length
      | some cut => carried data.length (cut - head.encode.length)
  | _, _ => 0

theorem octetsAmong_congr {pick pick' : Frame → Bool} {frames : List Frame}
    (h : ∀ f ∈ frames, pick f = pick' f) (n : Nat) :
    octetsAmong pick frames n = octetsAmong pick' frames n := by
  induction frames generalizing n with
  | nil => rfl
  | cons f rest ih =>
      simp only [octetsAmong, h f List.mem_cons_self]
      rw [ih fun g hg => h g (List.mem_cons_of_mem _ hg)]

theorem octetsAmong_none {pick : Frame → Bool} {frames : List Frame}
    (h : ∀ f ∈ frames, pick f = false) (n : Nat) : octetsAmong pick frames n = 0 := by
  induction frames generalizing n with
  | nil => rfl
  | cons f rest ih =>
      simp only [octetsAmong, h f List.mem_cons_self, Bool.false_eq_true, ↓reduceIte, Nat.zero_add]
      exact ih (fun g hg => h g (List.mem_cons_of_mem _ hg)) _

theorem length_encode (f : Frame) : f.encode.length = 9 + f.payload.length := by
  simp [Frame.encode, packU32]
  omega

-- Of frames that went out whole every octet counts.
theorem octetsAmong_whole (pick : Frame → Bool) (frames : List Frame) :
    octetsAmong pick frames (frames.flatMap Frame.encode).length =
      ((frames.filter pick).map fun f => f.payload.length).sum := by
  induction frames with
  | nil => rfl
  | cons f rest ih =>
      have hlen : ((f :: rest).flatMap Frame.encode).length =
          9 + f.payload.length + (rest.flatMap Frame.encode).length := by
        rw [List.flatMap_cons, List.length_append, length_encode]
      have hrest : 9 + f.payload.length + (rest.flatMap Frame.encode).length - f.encode.length =
          (rest.flatMap Frame.encode).length := by
        rw [length_encode]
        omega
      rw [hlen]
      simp only [octetsAmong, hrest, ih]
      cases hp : pick f
      · simp [hp]
      · have hmin : min f.payload.length
            (9 + f.payload.length + (rest.flatMap Frame.encode).length - 9) = f.payload.length := by
          omega
        simp only [hmin, ↓reduceIte, List.filter_cons_of_pos hp, List.map_cons, List.sum_cons]

-- The pieces of a body add up to it.
theorem sum_dataFrames (sid : Nat) (body : Bytes) :
    (((dataFrames sid body).filter isData).map fun f => f.payload.length).sum = body.length := by
  by_cases hb : body = []
  · subst hb
    rfl
  · have hpos := List.length_pos_of_ne_nil hb
    have ih := sum_dataFrames sid (body.drop MAX_FRAME)
    rw [dataFrames_cons sid hb, List.filter_cons_of_pos (by simp [isData]), List.map_cons, List.sum_cons, ih]
    simp only [List.length_take, List.length_drop]
    omega
termination_by body.length
decreasing_by
  simp only [List.length_drop, MAX_FRAME]
  omega

-- The frames have no octets behind their end.
theorem octetsAmong_min (pick : Frame → Bool) (frames : List Frame) (n : Nat) :
    octetsAmong pick frames (min n (frames.flatMap Frame.encode).length) = octetsAmong pick frames n := by
  induction frames generalizing n with
  | nil => rfl
  | cons f rest ih =>
      have hlen := length_encode f
      have hhead : min f.payload.length (min n (f.encode.length + (rest.flatMap Frame.encode).length) - 9) =
          min f.payload.length (n - 9) := by omega
      have hrest : min n (f.encode.length + (rest.flatMap Frame.encode).length) - f.encode.length =
          min (n - f.encode.length) (rest.flatMap Frame.encode).length := by omega
      simp only [octetsAmong, List.flatMap_cons, List.length_append, hhead, hrest, ih]

theorem carried_zero (room : Nat) : carried 0 room = 0 := Nat.zero_min _

-- One frame takes its header and at most MAX_FRAME octets of the body.
theorem carried_succ {length : Nat} (h : 0 < length) (room : Nat) :
    carried length room = min (min MAX_FRAME length) (room - 9) +
      carried (length - MAX_FRAME) (room - (9 + min MAX_FRAME length)) := by
  simp only [carried, MAX_FRAME]
  omega

-- As much of a body goes out as is counted.
theorem octetsAmong_dataFrames (sid : Nat) (body : Bytes) (room : Nat) :
    octetsAmong isData (dataFrames sid body) room = carried body.length room := by
  by_cases hb : body = []
  · subst hb
    rw [List.length_nil, carried_zero]
    rfl
  · have hpos := List.length_pos_of_ne_nil hb
    have hdata : ∀ flags payload, isData ⟨.data, flags, sid, payload⟩ = true := fun _ _ => rfl
    have hlen : (body.take MAX_FRAME).length = min MAX_FRAME body.length := List.length_take
    have ih := octetsAmong_dataFrames sid (body.drop MAX_FRAME) (room - (9 + min MAX_FRAME body.length))
    rw [List.length_drop] at ih
    rw [dataFrames_cons sid hb, octetsAmong, hdata, if_pos rfl, length_encode]
    dsimp only
    rw [hlen, ih, ← carried_succ hpos]
termination_by body.length
decreasing_by
  simp only [List.length_drop, MAX_FRAME]
  omega

namespace Conn

theorem upload_eq_some {hp : Hpack ε δ} {c : Conn ε δ} {args : SendArgs} {w : Write}
    (h : c.upload hp args = some w) :
    ∃ block data, args.body = .bytes data ∧
      w.frames = headersFrame c.nextId block (!args.body.truthy) :: dataFrames c.nextId data := by
  unfold upload at h
  split at h
  · rename_i fields data _ _ hbody
    split at h
    · rename_i block _
      simp only [Option.ite_none_right_eq_some, Option.some.injEq] at h
      obtain ⟨_, rfl⟩ := h
      exact ⟨block, data, hbody, rfl⟩
    · cases h
  · cases h

-- A send writes everything it has in one go, whatever the server lets it send.
theorem log_send (hp : Hpack ε δ) (c : Conn ε δ) (args : SendArgs) :
    (c.send hp args).1.tp.log = c.tp.log ++ (c.upload hp args).toList := by
  change (c.trySend hp args).1.tp.log = _
  rcases c.trySend_cases hp args with ⟨hno, exc, he⟩ | ⟨fields, hc, hf, he⟩ <;> rw [he]
  · have hu : c.upload hp args = none := by
      unfold upload
      rcases hno with hc | hf
      · simp [hc]
      · cases c.closed <;> simp [hf]
    simp [hu]
  · unfold upload
    rcases (c.allocate.register c.nextId args.maxBytes).emit_cases hp c.nextId fields args.body with
      ⟨exc, hno, hm⟩ | ⟨block, data, hb, hd, hpacks, hm⟩ <;> rw [hm, hc, hf]
    · rcases hno with hno | ⟨truthy, hd⟩ | ⟨block, hb, hpacks⟩
      · cases args.body with
        | bytes data =>
            cases he : (hp.encode c.enc fields).2 with
            | error exc => simp [he, setEncoder, register, allocate]
            | ok block => exact absurd he (hno block)
        | other truthy => simp [setEncoder, register, allocate]
      · simp [hd, setEncoder, register, allocate]
      · have hb' : (hp.encode c.enc fields).2 = .ok block := hb
        cases hd : args.body with
        | bytes data =>
            rw [hd] at hpacks
            simp [hb', hpacks, setEncoder, register, allocate]
        | other truthy => simp [setEncoder, register, allocate]
    · have hb' : (hp.encode c.enc fields).2 = .ok block := hb
      rw [hd] at hpacks ⊢
      simp only [hb', hpacks, ↓reduceIte, Option.toList_some]
      rfl

-- An unbroken write puts out the whole body.
theorem uploaded_whole {hp : Hpack ε δ} {c : Conn ε δ} {args : SendArgs} {w : Write}
    (h : c.upload hp args = some w) (hcut : w.cut = none) :
    ∃ data, args.body = .bytes data ∧ c.uploaded hp args = data.length := by
  obtain ⟨block, data, hbody, hw⟩ := upload_eq_some h
  have hbytes : w.bytes = w.frames.flatMap Frame.encode := by simp [Write.bytes, hcut]
  have hhead : isData (headersFrame c.nextId block (!args.body.truthy)) = false := by simp [isData]
  refine ⟨data, hbody, ?_⟩
  simp only [uploaded, h, Write.octets, hbytes]
  rw [octetsAmong_whole, hw, List.filter_cons_of_neg (by simp [hhead]), sum_dataFrames]

theorem head_not_data {hp : Hpack ε δ} {c : Conn ε δ} {args : SendArgs} {head : Frame}
    (h : c.head hp args = some head) : isData head = false := by
  unfold Conn.head at h
  split at h
  · split at h
    · simp only [Option.ite_none_right_eq_some, Option.some.injEq] at h
      rw [← h.2]
      simp [isData]
    · cases h
  · cases h

theorem upload_eq (hp : Hpack ε δ) (c : Conn ε δ) (args : SendArgs) :
    c.upload hp args =
      match args.body, c.head hp args with
      | .bytes data, some head => some ⟨head :: dataFrames c.nextId data, c.tp.fate c.tp.log.length⟩
      | _, _ => none := by
  unfold upload head
  cases c.closed with
  | true => cases args.body <;> rfl
  | false =>
      cases args.fields with
      | none => cases args.body <;> rfl
      | some fields =>
          cases args.body with
          | other truthy => rfl
          | bytes data =>
              dsimp only
              cases (hp.encode c.enc fields).2 with
              | error exc => rfl
              | ok block =>
                  dsimp only
                  split <;> rfl

-- What goes out of a request is what is due.
theorem uploaded_eq_due (hp : Hpack ε δ) (c : Conn ε δ) (args : SendArgs) :
    c.uploaded hp args = c.due hp args := by
  have hupload := c.upload_eq hp args
  unfold due
  cases hbody : args.body with
  | other truthy =>
      rw [hbody] at hupload
      rw [uploaded, hupload]
  | bytes data =>
      cases hhead : c.head hp args with
      | none =>
          rw [hbody, hhead] at hupload
          rw [uploaded, hupload]
      | some head =>
          rw [hbody, hhead] at hupload
          dsimp only at hupload ⊢
          cases hcut : c.tp.fate c.tp.log.length with
          | none =>
              obtain ⟨whole, hwhole, hlength⟩ := uploaded_whole hupload hcut
              rw [hlength, Body.bytes.inj (hbody.symm.trans hwhole)]
          | some cut =>
              have hdata : isData head = false := head_not_data hhead
              have hbytes : (Write.bytes ⟨head :: dataFrames c.nextId data, some cut⟩).length =
                  min cut ((head :: dataFrames c.nextId data).flatMap Frame.encode).length := List.length_take
              rw [uploaded, hupload, hcut]
              dsimp only
              rw [Write.octets, hbytes, octetsAmong_min, octetsAmong, hdata, if_neg (by decide), Nat.zero_add,
                octetsAmong_dataFrames]

theorem sent_of_log {c c' : Conn ε δ} (h : c'.tp.log = c.tp.log) (pick : Frame → Bool) :
    c'.sent pick = c.sent pick := by
  unfold sent
  rw [h]

-- Control frames are never picked.
theorem sent_of_control {c c' : Conn ε δ} (h : ControlWrites c c') {pick : Frame → Bool}
    (hpick : ∀ f, pick f = true → f.ftype = .data) : c'.sent pick = c.sent pick := by
  obtain ⟨writes, hlog, hf⟩ := h
  have hz : ∀ n ∈ writes.map (Write.octets pick), n = 0 := by
    intro n hn
    obtain ⟨w, hw, rfl⟩ := List.mem_map.mp hn
    apply octetsAmong_none
    intro f hmem
    by_contra hp
    exact (hf w hw f hmem).2 (hpick f (by simpa using hp))
  unfold sent
  rw [hlog, List.map_append, List.sum_append, List.sum_eq_zero_iff_forall_eq_nat.mpr hz, Nat.add_zero]

theorem sent_send_data (hp : Hpack ε δ) (c : Conn ε δ) (args : SendArgs) :
    (c.send hp args).1.sent isData = c.sent isData + c.uploaded hp args := by
  unfold sent uploaded
  rw [c.log_send hp args]
  cases c.upload hp args <;> simp

-- All of it is on the stream the send has allocated.
theorem sent_send_stream (hp : Hpack ε δ) (c : Conn ε δ) (args : SendArgs) (sid : Nat) :
    (c.send hp args).1.sent (dataOn sid) =
      c.sent (dataOn sid) + if sid = c.nextId then c.uploaded hp args else 0 := by
  unfold sent uploaded
  rw [c.log_send hp args]
  cases hu : c.upload hp args with
  | none => simp
  | some w =>
      obtain ⟨block, data, _, hw⟩ := upload_eq_some hu
      have hsid : ∀ f ∈ w.frames, f.sid = c.nextId := by
        rw [hw]
        intro f hf
        rcases List.mem_cons.mp hf with rfl | hf
        · exact headersFrame_sid _ _ _
        · obtain ⟨i, _, rfl⟩ := List.mem_map.mp hf
          rfl
      have hoctets : w.octets (dataOn sid) = if sid = c.nextId then w.octets isData else 0 := by
        split
        · rename_i hs
          exact octetsAmong_congr (fun f hf => by simp [dataOn, isData, hsid f hf, hs]) _
        · rename_i hs
          exact octetsAmong_none (fun f hf => by simp [dataOn, hsid f hf, Ne.symm hs]) _
      simp [hoctets]

end Conn

theorem data_of_isData (f : Frame) (h : isData f = true) : f.ftype = .data := by simpa [isData] using h

theorem data_of_dataOn (sid : Nat) (f : Frame) (h : dataOn sid f = true) : f.ftype = .data := by
  have hf : f.ftype = .data ∧ f.sid = sid := by simpa [dataOn] using h
  exact hf.1

-- The opening frames carry none.
theorem sent_init (hp : Hpack ε δ) (fate : Nat → Option Nat) {pick : Frame → Bool}
    (hpick : ∀ f, pick f = true → f.ftype = .data) : (Conn.init hp fate).sent pick = 0 := by
  have hz : Write.octets pick ⟨openingFrames, none⟩ = 0 := by
    apply octetsAmong_none
    intro f hf
    by_contra hp
    have hdata := hpick f (by simpa using hp)
    have hcontrol : ∀ f ∈ openingFrames, f.ftype ≠ .data := by decide
    exact hcontrol f hf hdata
  simp [Conn.sent, Conn.init, hz]

-- A connection together with what its peer has let it send.
structure Metered (ε δ : Type) where
  conn : Conn ε δ
  credit : Credit := {}

namespace Metered

def start (hp : Hpack ε δ) (fate : Nat → Option Nat) : Metered ε δ := { conn := Conn.init hp fate }

def step (hp : Hpack ε δ) (m : Metered ε δ) (e : Event) : Option (Metered ε δ) :=
  (H2.step hp m.conn e).map fun conn => ⟨conn, m.credit.observe e⟩

-- No stream and not the connection has carried more DATA than it may.
def WithinWindows (m : Metered ε δ) : Prop :=
  (∀ sid, m.conn.sent (dataOn sid) ≤ m.credit.stream sid) ∧ m.conn.sent isData ≤ m.credit.connection

-- The body of a request fits both windows, and no SETTINGS leaves a stream with
-- less than it has already carried.
def Fits (hp : Hpack ε δ) (m : Metered ε δ) : Event → Prop
  | .send args => m.conn.due hp args ≤ m.credit.stream m.conn.nextId ∧
      m.conn.sent isData + m.conn.due hp args ≤ m.credit.connection
  | .frame f => f.ftype = .settings →
      ∀ sid < m.conn.nextId, m.conn.sent (dataOn sid) ≤ (m.credit.receive f).stream sid
  | _ => True

instance (hp : Hpack ε δ) (m : Metered ε δ) (e : Event) : Decidable (m.Fits hp e) := by
  cases e <;> unfold Fits <;> infer_instance

-- Streams not yet allocated have carried nothing.
def Fresh (m : Metered ε δ) : Prop := ∀ sid, m.conn.nextId ≤ sid → m.conn.sent (dataOn sid) = 0

-- Apart from a send nothing that happens to a connection writes DATA.
theorem sent_step {hp : Hpack ε δ} {c c' : Conn ε δ} {e : Event} (hs : H2.step hp c e = some c')
    (hno : ∀ args, e ≠ .send args) :
    c'.nextId = c.nextId ∧ ∀ pick : Frame → Bool, (∀ f, pick f = true → f.ftype = .data) →
      c'.sent pick = c.sent pick := by
  have hmicros : ∀ {kind : FrameType} {c c' : Conn ε δ}, Conn.Micros kind c c' →
      c'.nextId = c.nextId ∧ ∀ pick : Frame → Bool, (∀ f, pick f = true → f.ftype = .data) →
        c'.sent pick = c.sent pick := fun h =>
    ⟨(Conn.Kept.of_micros h).nextId, fun _ hpick => Conn.sent_of_control (.of_micros h) hpick⟩
  have hexit : ∀ (c : Conn ε δ) exc, (c.exitReader exc).nextId = c.nextId ∧
      ∀ pick : Frame → Bool, (c.exitReader exc).sent pick = c.sent pick := fun c exc =>
    ⟨(c.stable_exitReader exc).nextId, Conn.sent_of_log (by
      simp only [Conn.exitReader, Conn.failAll, Conn.failItems_eq])⟩
  cases step_happens hs with
  | frame f _ _ _ => exact hmicros (Conn.Micros.dispatch hp c f)
  | raised f exc _ _ _ =>
      obtain ⟨hnext, hsent⟩ := hmicros (Conn.Micros.dispatch hp c f)
      obtain ⟨hnext', hsent'⟩ := hexit (c.dispatch hp f).1 exc
      exact ⟨hnext'.trans hnext, fun pick hpick => (hsent' pick).trans (hsent pick hpick)⟩
  | eof _ | stopped _ _ =>
      obtain ⟨hnext, hsent⟩ := hexit c Conn.peerClosed
      exact ⟨hnext, fun pick _ => hsent pick⟩
  | idle _ _ | acquire _ | refused _ | pop _ => exact ⟨rfl, fun _ _ => rfl⟩
  | send args => exact absurd rfl (hno args)
  | rst sid => exact hmicros (Conn.Micros.sendRst c sid : Conn.Micros .rst c _)
  | close => exact ⟨c.stable_close.nextId, fun pick _ => Conn.sent_of_log c.log_close pick⟩

theorem nextId_send (hp : Hpack ε δ) (c : Conn ε δ) (args : SendArgs) :
    (c.send hp args).1.nextId = c.nextId ∧ c.uploaded hp args = 0 ∨
      (c.send hp args).1.nextId = c.nextId + 2 := by
  rcases c.trySend_cases hp args with ⟨hno, exc, he⟩ | ⟨fields, _, _, he⟩
  · refine .inl ⟨by rw [Conn.send_fst, he]; rfl, ?_⟩
    rcases hno with hc | hf
    · simp [Conn.uploaded, Conn.upload, hc]
    · cases hc : c.closed <;> simp [Conn.uploaded, Conn.upload, hc, hf]
  · right
    obtain ⟨writes, hm⟩ := (c.allocate.register c.nextId args.maxBytes).emit_state hp c.nextId fields
      args.body
    rw [Conn.send_fst, he]
    simp only [hm]
    rfl

-- A send keeps both windows exactly when its body fits them.
theorem within_send (hp : Hpack ε δ) (m : Metered ε δ) (args : SendArgs) (hfresh : m.Fresh)
    (hwithin : m.WithinWindows) :
    WithinWindows ⟨(m.conn.send hp args).1, m.credit⟩ ↔ m.Fits hp (.send args) := by
  simp only [WithinWindows, Fits, Conn.sent_send_data, Conn.sent_send_stream, Conn.uploaded_eq_due]
  constructor
  · rintro ⟨hstream, hconn⟩
    have hs := hstream m.conn.nextId
    rw [if_pos rfl, hfresh _ (Nat.le_refl _), Nat.zero_add] at hs
    exact ⟨hs, hconn⟩
  · rintro ⟨hstream, hconn⟩
    refine ⟨fun sid => ?_, hconn⟩
    by_cases hs : sid = m.conn.nextId
    · rw [if_pos hs, hs, hfresh _ (Nat.le_refl _), Nat.zero_add]
      exact hstream
    · rw [if_neg hs, Nat.add_zero]
      exact hwithin.1 sid

-- A frame keeps them unless it is a SETTINGS that takes too much back.
theorem within_frame (hp : Hpack ε δ) (m : Metered ε δ) (f : Frame) (hfresh : m.Fresh)
    (hwithin : m.WithinWindows) :
    WithinWindows ⟨m.conn, m.credit.receive f⟩ ↔ m.Fits hp (.frame f) := by
  have hconn := Nat.le_trans hwithin.2 (m.credit.connection_le_receive f)
  constructor
  · rintro ⟨hstream, _⟩ _ sid _
    exact hstream sid
  · intro hfits
    refine ⟨fun sid => ?_, hconn⟩
    by_cases hf : f.ftype = .settings
    · by_cases hs : sid < m.conn.nextId
      · exact hfits hf sid hs
      · simp only [hfresh sid (by omega), Nat.zero_le]
    · exact Nat.le_trans (hwithin.1 sid) (m.credit.stream_le_receive f hf sid)

theorem fresh_send (hp : Hpack ε δ) (m : Metered ε δ) (args : SendArgs) (credit : Credit)
    (hfresh : m.Fresh) : Fresh ⟨(m.conn.send hp args).1, credit⟩ := by
  intro sid hsid
  dsimp only at hsid ⊢
  rw [Conn.sent_send_stream]
  rcases nextId_send hp m.conn args with ⟨hnext, hz⟩ | hnext <;> rw [hnext] at hsid
  · rw [hz, hfresh sid hsid, ite_self]
  · rw [hfresh sid (by omega), if_neg (by omega)]

theorem step_spec (hp : Hpack ε δ) (m : Metered ε δ) (e : Event) (m' : Metered ε δ) (hfresh : m.Fresh)
    (hwithin : m.WithinWindows) (hs : m.step hp e = some m') :
    m'.Fresh ∧ (m'.WithinWindows ↔ m.Fits hp e) := by
  obtain ⟨c', hc, rfl⟩ := Option.map_eq_some_iff.mp hs
  by_cases hsend : ∃ args, e = .send args
  · obtain ⟨args, rfl⟩ := hsend
    cases hc
    exact ⟨fresh_send hp m args _ hfresh, within_send hp m args hfresh hwithin⟩
  · obtain ⟨hnext, hsent⟩ := sent_step hc fun args he => hsend ⟨args, he⟩
    have hstream := fun sid => hsent (dataOn sid) (data_of_dataOn sid)
    have hdata := hsent isData data_of_isData
    constructor
    · intro sid hsid
      exact (hstream sid).trans (hfresh sid (hnext ▸ hsid))
    · have hsame : ∀ credit, WithinWindows ⟨c', credit⟩ ↔ WithinWindows ⟨m.conn, credit⟩ := by
        intro credit
        simp only [WithinWindows, hstream, hdata]
      rw [hsame]
      cases e with
      | frame f => exact within_frame hp m f hfresh hwithin
      | send args => exact absurd ⟨args, rfl⟩ hsend
      | _ => exact iff_of_true hwithin trivial

-- Metering a run changes nothing in it.
theorem run_eq (hp : Hpack ε δ) (m : Metered ε δ) (events : List Event) :
    Transition.run (step hp) m events =
      (Transition.run (H2.step hp) m.conn events).map fun c =>
        ⟨c, events.foldl Credit.observe m.credit⟩ := by
  induction events generalizing m with
  | nil => rfl
  | cons e rest ih =>
      simp only [Transition.run, step, List.foldl_cons]
      cases H2.step hp m.conn e with
      | none => rfl
      | some c => exact ih ⟨c, m.credit.observe e⟩

end Metered

-- In every state of a run the DATA written on each stream and on the connection
-- is within what the frames received so far allow exactly when the body of each
-- request fitted at the time it was sent and no SETTINGS fell below what was
-- already written.
theorem send_windows_iff (hp : Hpack ε δ) (fate : Nat → Option Nat) (events : List Event) (c : Conn ε δ)
    (hrun : Transition.run (step hp) (Conn.init hp fate) events = some c) :
    (∀ pre mid, pre <+: events → Transition.run (step hp) (Conn.init hp fate) pre = some mid →
      (∀ sid, mid.sent (dataOn sid) ≤ (pre.foldl Credit.observe {}).stream sid) ∧
        mid.sent isData ≤ (pre.foldl Credit.observe {}).connection) ↔
      Transition.Meets (Metered.step hp) (Metered.Fits hp) (Metered.start hp fate) events := by
  have hfresh : (Metered.start hp fate).Fresh := fun sid _ => sent_init hp fate (data_of_dataOn sid)
  have hwithin : (Metered.start hp fate).WithinWindows := by
    constructor
    · intro sid
      simp only [Metered.start, sent_init hp fate (data_of_dataOn sid), Nat.zero_le]
    · simp only [Metered.start, sent_init hp fate data_of_isData, Nat.zero_le]
  have hmetered : Transition.run (Metered.step hp) (Metered.start hp fate) events =
      some ⟨c, events.foldl Credit.observe {}⟩ := by
    rw [Metered.run_eq]
    simp only [Metered.start, hrun, Option.map_some]
  rw [← Transition.always_iff Metered.Fresh Metered.WithinWindows (Metered.step_spec hp) hfresh hwithin
    hmetered]
  constructor
  · intro h pre mid hpre hmid
    rw [Metered.run_eq] at hmid
    obtain ⟨c', hc', rfl⟩ := Option.map_eq_some_iff.mp hmid
    exact h pre c' hpre hc'
  · intro h pre mid hpre hmid
    exact h pre ⟨mid, pre.foldl Credit.observe {}⟩ hpre (by
      rw [Metered.run_eq]
      simp only [Metered.start, hmid, Option.map_some])

def windowSettings (size : UInt8) : Frame := ⟨.settings, 0, 0, [0, 4, 0, 0, 0, size]⟩

def shortPost : SendArgs := { getRequest with method := "POST", body := .bytes [1, 2, 3] }

theorem send_windows_short_post :
    ∃ events c, Transition.run (step recorder) (Conn.init recorder fun _ => none) events = some c ∧
      events = [.frame (windowSettings 3), .send shortPost] ∧
      ∀ pre mid, pre <+: events →
        Transition.run (step recorder) (Conn.init recorder fun _ => none) pre = some mid →
        (∀ sid, mid.sent (dataOn sid) ≤ (pre.foldl Credit.observe {}).stream sid) ∧
          mid.sent isData ≤ (pre.foldl Credit.observe {}).connection :=
  ⟨_, _, rfl, rfl, (send_windows_iff recorder (fun _ => none) _ _ rfl).mpr (by decide)⟩

-- A server that opens streams with two octets gets three all the same.
theorem upload_overruns_window :
    ∃ events c, Transition.run (step recorder) (Conn.init recorder fun _ => none) events = some c ∧
      ¬ ((∀ sid, c.sent (dataOn sid) ≤ (events.foldl Credit.observe {}).stream sid) ∧
        c.sent isData ≤ (events.foldl Credit.observe {}).connection) :=
  ⟨[.frame (windowSettings 2), .send shortPost], _, rfl, fun h => absurd (h.1 1) (by decide)⟩

end NeverFox.H2
