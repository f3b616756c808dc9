import NeverFox.H2.Connection
import Mathlib.Logic.Relation

namespace NeverFox.H2

variable {ε δ : Type}

@[simp] theorem headersFrame_sid (sid : Nat) (block : Bytes) (endStream : Bool) :
    (headersFrame sid block endStream).sid = sid := by
  by_cases hs : sid = 1 <;> simp [headersFrame, hs]

@[simp] theorem headersFrame_ftype (sid : Nat) (block : Bytes) (endStream : Bool) :
    (headersFrame sid block endStream).ftype = .headers := by
  by_cases hs : sid = 1 <;> simp [headersFrame, hs]

theorem dataFrames_ftype (sid : Nat) (body : Bytes) (f : Frame) (hf : f ∈ dataFrames sid body) :
    f.ftype = .data := by
  obtain ⟨i, _, rfl⟩ := List.mem_map.mp hf
  rfl

namespace Conn

-- The snapshot loops touch each object at most once: a failed stream is done.
theorem failItems_eq (c : Conn ε δ) (exc : Exn) (pick : Nat → Bool) (items : List Nat) :
    c.failItems exc pick items =
      { c with obj := fun sid =>
          if sid ∈ items ∧ pick sid ∧ (c.obj sid).done = false then
            { c.obj sid with error := some exc, done := true }
          else c.obj sid } := by
  induction items generalizing c with
  | nil => simp [failItems]
  | cons head rest ih =>
      have hfold : c.failItems exc pick (head :: rest) =
          (if pick head && !(c.obj head).done then c.fail head exc else c).failItems exc pick rest := rfl
      rw [hfold, ih]
      by_cases hp : pick head = true ∧ (c.obj head).done = false
      · have hc : (pick head && !(c.obj head).done) = true := by simp [hp]
        simp only [hc, ↓reduceIte, fail, modify]
        congr 1
        funext sid
        by_cases hs : sid = head
        · subst hs; simp [hp]
        · simp [hs]
      · have hc : (pick head && !(c.obj head).done) = false := by
          rcases hh : pick head <;> simp_all
        simp only [hc, Bool.false_eq_true, ↓reduceIte]
        congr 1
        funext sid
        by_cases hs : sid = head
        · subst hs; simp [hp]
        · simp [hs]

theorem sendRst_eq (c : Conn ε δ) (sid : Nat) :
    c.sendRst sid = c ∨ c.sendRst sid = (c.write [rstStream sid E_CANCEL]).1 := by
  unfold sendRst
  split
  · exact .inl rfl
  · exact .inr rfl

-- Storing fields touches the status and the headers of a stream only.
theorem storeFields_kept (st : Stream) (fields : List Header) :
    ∃ status headers, (storeFields st fields).1 = { st with status := status, headers := headers } := by
  induction fields generalizing st with
  | nil => exact ⟨_, _, rfl⟩
  | cons field rest ih =>
      unfold storeFields
      split
      · split
        · exact ih _
        · exact ⟨_, _, rfl⟩
      · exact ih _

-- A send either stops before it has touched the connection, or allocates,
-- registers and emits; the outcome is that of the last step.
theorem trySend_cases (hp : Hpack ε δ) (c : Conn ε δ) (args : SendArgs) :
    ((c.closed = true ∨ args.fields = none) ∧
      ∃ exc, c.trySend hp args = (c, .error exc)) ∨
    ∃ fields, c.closed = false ∧ args.fields = some fields ∧
      c.trySend hp args =
        (((c.allocate.register c.nextId args.maxBytes).emit hp c.nextId fields args.body).1,
          match ((c.allocate.register c.nextId args.maxBytes).emit hp c.nextId fields args.body).2 with
          | none => .ok c.nextId
          | some exc => .error exc) := by
  unfold trySend
  split
  · rename_i hc
    exact .inl ⟨.inl hc, _, rfl⟩
  · rename_i hc
    split
    · rename_i hn
      exact .inl ⟨.inr hn, _, rfl⟩
    · rename_i fields hf
      refine .inr ⟨fields, by simpa using hc, hf, ?_⟩
      dsimp only
      split <;> simp_all

-- An emit that raises before its write has only changed the encoder.
theorem emit_cases (hp : Hpack ε δ) (c : Conn ε δ) (sid : Nat) (fields : List Header) (body : Body) :
    (∃ exc, ((∀ block, (hp.encode c.enc fields).2 ≠ .ok block) ∨ (∃ truthy, body = .other truthy) ∨
        ∃ block, (hp.encode c.enc fields).2 = .ok block ∧
          (headersFrame sid block (!body.truthy)).packs = false) ∧
      c.emit hp sid fields body = (c.setEncoder (hp.encode c.enc fields).1, some exc)) ∨
    ∃ block data, (hp.encode c.enc fields).2 = .ok block ∧ body = .bytes data ∧
      (headersFrame sid block (!body.truthy)).packs = true ∧
      c.emit hp sid fields body = (c.setEncoder (hp.encode c.enc fields).1).write
        (headersFrame sid block (!body.truthy) :: dataFrames sid data) := by
  unfold emit
  dsimp only
  split
  · rename_i exc he
    exact .inl ⟨exc, .inl (by simp [he]), rfl⟩
  · rename_i block he
    split
    · rename_i hpacks
      split
      · exact .inl ⟨_, .inr (.inl ⟨_, rfl⟩), rfl⟩
      · rename_i data
        exact .inr ⟨block, data, he, rfl, hpacks, rfl⟩
    · rename_i hpacks
      exact .inl ⟨_, .inr (.inr ⟨block, he, by simpa using hpacks⟩), rfl⟩

-- Whatever happens, an emit steps the encoder once and logs what it wrote.
theorem emit_state (hp : Hpack ε δ) (c : Conn ε δ) (sid : Nat) (fields : List Header) (body : Body) :
    ∃ writes, (c.emit hp sid fields body).1 = { c with
      enc := (hp.encode c.enc fields).1, tp := { c.tp with log := c.tp.log ++ writes } } := by
  rcases c.emit_cases hp sid fields body with ⟨exc, _, he⟩ | ⟨block, data, _, _, _, he⟩ <;> rw [he]
  · exact ⟨[], by simp [setEncoder]⟩
  · exact ⟨_, rfl⟩

theorem send_fst (hp : Hpack ε δ) (c : Conn ε δ) (args : SendArgs) :
    (c.send hp args).1 = (c.trySend hp args).1.release := rfl

theorem send_snd (hp : Hpack ε δ) (c : Conn ε δ) (args : SendArgs) :
    (c.send hp args).2 = (c.trySend hp args).2 := rfl

theorem readFrame_cases (hp : Hpack ε δ) (c : Conn ε δ) (f : Frame) :
    ((c.dispatch hp f).2 = none ∧ c.readFrame hp f = (c.dispatch hp f).1) ∨
    ∃ exc, (c.dispatch hp f).2 = some exc ∧
      c.readFrame hp f = (c.dispatch hp f).1.exitReader exc := by
  unfold readFrame
  rcases hd : c.dispatch hp f with ⟨next, raised⟩
  cases raised with
  | none => exact .inl ⟨rfl, rfl⟩
  | some exc => exact .inr ⟨exc, rfl, rfl⟩

-- The single changes that the dispatch of a frame of each kind is made of.
inductive Micro (kind : FrameType) : Conn ε δ → Conn ε δ → Prop
  | block (c : Conn ε δ) (hsid : Option Nat) (hbuf : Bytes) (hend : Bool)
      (hk : kind = .headers ∨ kind = .continuation) :
      Micro kind c { c with hsid := hsid, hbuf := hbuf, hend := hend }
  | decode (c : Conn ε δ) (dec : δ) (hk : kind = .headers ∨ kind = .continuation) :
      Micro kind c { c with dec := dec }
  | store (c : Conn ε δ) (sid : Nat) (fields : List Header)
      (hk : kind = .headers ∨ kind = .continuation) :
      Micro kind c (c.modify sid fun st => (storeFields st fields).1)
  | chunk (c : Conn ε δ) (f : Frame) (hk : kind = .data) : Micro kind c (c.addChunk f)
  | credit (c : Conn ε δ) (f : Frame) (hk : kind = .data) : Micro kind c (c.write (dataCredit f)).1
  | finish (c : Conn ε δ) (sid : Nat) : Micro kind c (c.finish sid)
  | fail (c : Conn ε δ) (sid : Nat) (exc : Exn) : Micro kind c (c.fail sid exc)
  | control (c : Conn ε δ) (f : Frame) (hf : f.ftype = .rst ∨ f.ftype = .settings ∨ f.ftype = .ping) :
      Micro kind c (c.write [f]).1
  | limit (c : Conn ε δ) (limit : Nat) : Micro kind c { c with maxConcurrent := limit }
  | goaway (c : Conn ε δ) (f : Frame) : Micro kind c (c.markGoaway f)

abbrev Micros (kind : FrameType) : Conn ε δ → Conn ε δ → Prop := Relation.ReflTransGen (Micro kind)

namespace Micros

variable {kind : FrameType}

theorem failItems (c : Conn ε δ) (exc : Exn) (pick : Nat → Bool) (items : List Nat) :
    Micros kind c (c.failItems exc pick items) := by
  induction items generalizing c with
  | nil => exact .refl
  | cons head rest ih =>
      change Micros kind c ((if pick head && !(c.obj head).done then c.fail head exc else c).failItems
        exc pick rest)
      split
      · exact .head (.fail c head exc) (ih _)
      · exact ih c

theorem sendRst (c : Conn ε δ) (sid : Nat) : Micros kind c (c.sendRst sid) := by
  rcases c.sendRst_eq sid with h | h <;> rw [h]
  exact .single (.control c _ (.inl rfl))

theorem settleData (c : Conn ε δ) (f : Frame) : Micros kind c (c.settleData f) := by
  unfold Conn.settleData
  dsimp only
  split
  · exact .tail (sendRst c f.sid) (.fail _ _ _)
  · split
    · exact .single (.finish _ _)
    · exact .refl

theorem finishHeaders (hp : Hpack ε δ) (c : Conn ε δ) (hk : kind = .headers ∨ kind = .continuation) :
    Micros kind c (c.finishHeaders hp).1 := by
  unfold Conn.finishHeaders
  split
  · exact .single (.block c _ _ _ hk)
  · rename_i sid _
    have hd := Micro.decode c (hp.decode c.dec c.hbuf).1 hk
    dsimp only
    split
    · exact .single hd
    · rename_i fields _
      have hs := Micro.store { c with dec := (hp.decode c.dec c.hbuf).1 } sid fields hk
      split
      · exact .head hd (.single hs)
      · split
        · exact .head hd (.head hs (.head (.finish _ sid) (.single (.block _ _ _ _ hk))))
        · exact .head hd (.head hs (.single (.block _ _ _ _ hk)))

end Micros

-- DATA that is heard is stored, credited and then settled, unless the write raises.
theorem onData_cases (c : Conn ε δ) (f : Frame) :
    (¬(f.sid ∈ c.streams ∧ (c.obj f.sid).done = false) ∧ c.onData f = (c, none)) ∨
    (f.sid ∈ c.streams ∧ (c.obj f.sid).done = false) ∧
      ((f.payload = [] ∧ c.onData f = ((c.addChunk f).settleData f, none)) ∨
        (f.payload ≠ [] ∧ c.tp.fate c.tp.log.length = none ∧
          c.onData f = (((c.addChunk f).write (dataCredit f)).1.settleData f, none)) ∨
        ∃ exc, c.onData f = (((c.addChunk f).write (dataCredit f)).1, some exc)) := by
  unfold onData
  by_cases hh : f.sid ∈ c.streams ∧ (c.obj f.sid).done = false
  · refine .inr ⟨hh, ?_⟩
    simp only [hh, and_self, ↓reduceIte]
    by_cases hp : f.payload = []
    · exact .inl ⟨hp, by simp [hp]⟩
    · simp only [hp, ↓reduceIte]
      have hfate : ((c.addChunk f).write (dataCredit f)).2 =
          (c.tp.fate c.tp.log.length).map fun _ => .ioError "fxtls_write failed" := rfl
      cases hcut : c.tp.fate c.tp.log.length with
      | none => exact .inr (.inl ⟨hp, rfl, by simp [hfate, hcut]⟩)
      | some n => exact .inr (.inr ⟨.ioError "fxtls_write failed", by simp [hfate, hcut]⟩)
  · exact .inl ⟨hh, by simp [hh]⟩

theorem Micros.dispatch (hp : Hpack ε δ) (c : Conn ε δ) (f : Frame) :
    Micros f.ftype c (c.dispatch hp f).1 := by
  unfold Conn.dispatch
  split
  · rename_i ht
    rw [ht]
    unfold onHeaders
    have hb : Micro .headers c _ := .block c (some f.sid) f.payload f.endStream (.inl rfl)
    dsimp only
    split
    · exact .head hb (finishHeaders hp _ (.inl rfl))
    · exact .single hb
  · rename_i ht
    rw [ht]
    unfold onContinuation
    have hb : Micro .continuation c _ := .block c c.hsid (c.hbuf ++ f.payload) c.hend (.inr rfl)
    dsimp only
    split
    · exact .head hb (finishHeaders hp _ (.inr rfl))
    · exact .single hb
  · rename_i ht
    rw [ht]
    have hc : Micro .data c _ := .chunk c f rfl
    have hw : Micro .data (c.addChunk f) _ := .credit _ f rfl
    rcases c.onData_cases f with ⟨_, he⟩ | ⟨_, ⟨_, he⟩ | ⟨_, _, he⟩ | ⟨exc, he⟩⟩ <;> rw [he]
    · exact .head hc (settleData _ _)
    · exact .head hc (.head hw (settleData _ _))
    · exact .head hc (.single hw)
  · unfold onSettings
    split
    · exact .refl
    · have hl : Micro f.ftype c _ := .limit c (readSettings f.payload c.maxConcurrent).1
      dsimp only
      split
      · exact .single hl
      · exact .head hl (.single (.control _ _ (.inr (.inl rfl))))
  · unfold onPing
    split
    · exact .refl
    · exact .single (.control c _ (.inr (.inr rfl)))
  · exact .head (.goaway c f) (failItems _ _ _ _)
  · unfold onRst
    split
    · exact .single (.fail c f.sid _)
    · exact .refl
  all_goals exact .refl

-- A reflexive and transitive relation that holds of each single change holds
-- of all of them together.
theorem Micros.lift {kind : FrameType} {r : Conn ε δ → Conn ε δ → Prop} (hr : ∀ c, r c c)
    (ht : ∀ a b c, r a b → r b c → r a c) (hm : ∀ c c', Micro kind c c' → r c c')
    {c c' : Conn ε δ} (h : Micros kind c c') : r c c' := by
  induction h with
  | refl => exact hr c
  | tail _ hs ih => exact ht _ _ _ ih (hm _ _ hs)

-- What only the callers of a connection change.
structure Stable (c c' : Conn ε δ) : Prop where
  enc : c'.enc = c.enc
  streams : c'.streams = c.streams
  nextId : c'.nextId = c.nextId
  refs : c'.refs = c.refs
  fate : c'.tp.fate = c.tp.fate

theorem Stable.trans {a b c : Conn ε δ} (h : Stable a b) (h' : Stable b c) : Stable a c :=
  ⟨h'.enc.trans h.enc, h'.streams.trans h.streams, h'.nextId.trans h.nextId,
    h'.refs.trans h.refs, h'.fate.trans h.fate⟩

-- The dispatch of a frame, in addition, neither ends the reader, nor touches
-- the flags that close() sets for it, nor reopens the connection.
structure Kept (c c' : Conn ε δ) : Prop extends Stable c c' where
  closing : c'.closing = c.closing
  reading : c'.reading = c.reading
  stop : c'.tp.stop = c.tp.stop
  live : c'.tp.live = c.tp.live
  closed : c.closed = true → c'.closed = true

theorem Kept.same (c : Conn ε δ) : Kept c c := ⟨⟨rfl, rfl, rfl, rfl, rfl⟩, rfl, rfl, rfl, rfl, id⟩

theorem Kept.of_micros {kind : FrameType} {c c' : Conn ε δ} (h : Micros kind c c') : Kept c c' := by
  refine h.lift Kept.same ?_ ?_
  · intro a b c h h'
    exact ⟨h.toStable.trans h'.toStable, h'.closing.trans h.closing, h'.reading.trans h.reading,
      h'.stop.trans h.stop, h'.live.trans h.live, h'.closed ∘ h.closed⟩
  · intro c c' hm
    cases hm with
    | goaway f => exact ⟨⟨rfl, rfl, rfl, rfl, rfl⟩, rfl, rfl, rfl, rfl, fun _ => rfl⟩
    | _ => exact ⟨⟨rfl, rfl, rfl, rfl, rfl⟩, rfl, rfl, rfl, rfl, id⟩

theorem kept_dispatch (hp : Hpack ε δ) (c : Conn ε δ) (f : Frame) : Kept c (c.dispatch hp f).1 :=
  .of_micros (Micros.dispatch hp c f)

theorem kept_sendRst (c : Conn ε δ) (sid : Nat) : Kept c (c.sendRst sid) :=
  .of_micros (Micros.sendRst c sid : Micros .rst c _)

theorem stable_failAll (c : Conn ε δ) (exc : Exn) : Stable c (c.failAll exc) := by
  simp only [failAll, failItems_eq]
  exact ⟨rfl, rfl, rfl, rfl, rfl⟩

theorem stable_exitReader (c : Conn ε δ) (exc : Exn) : Stable c (c.exitReader exc) := by
  have hk := stable_failAll c exc
  exact ⟨hk.enc, hk.streams, hk.nextId, hk.refs, hk.fate⟩

theorem closed_exitReader (c : Conn ε δ) (exc : Exn) : (c.exitReader exc).closed = true := by
  simp only [exitReader, failAll, failItems_eq]

-- close() is idempotent, leaves a live reader to clean up, and else does it itself.
theorem close_cases (c : Conn ε δ) :
    (c.closing = true ∧ c.close = c) ∨
    (c.reading = true ∧ c.close =
      { c with closing := true, closed := true, tp := { c.tp with stop := true } }) ∨
    (c.reading = false ∧ c.close = { c with
      closing := true, closed := true, tp := { c.tp with stop := true, live := false },
      obj := (c.exitReader (.connectionError "connection closed")).obj }) := by
  unfold close
  by_cases hc : c.closing = true
  · exact .inl ⟨hc, by simp [hc]⟩
  · by_cases hr : c.reading = true
    · exact .inr (.inl ⟨hr, by simp [hc, hr]⟩)
    · refine .inr (.inr ⟨by simpa using hr, ?_⟩)
      simp only [hc, hr, Bool.false_eq_true, ↓reduceIte, exitReader, failAll, failItems_eq]

theorem stable_close (c : Conn ε δ) : Stable c c.close := by
  rcases c.close_cases with ⟨_, he⟩ | ⟨_, he⟩ | ⟨_, he⟩ <;> rw [he] <;>
    exact ⟨rfl, rfl, rfl, rfl, rfl⟩

theorem reading_close (c : Conn ε δ) : c.close.reading = c.reading := by
  rcases c.close_cases with ⟨_, he⟩ | ⟨_, he⟩ | ⟨_, he⟩ <;> rw [he]

theorem log_close (c : Conn ε δ) : c.close.tp.log = c.tp.log := by
  rcases c.close_cases with ⟨_, he⟩ | ⟨_, he⟩ | ⟨_, he⟩ <;> rw [he]

-- Two stretches of the log, one behind the other.
theorem log_append {p : Write → Prop} {a b c : Conn ε δ}
    (h : ∃ writes, b.tp.log = a.tp.log ++ writes ∧ ∀ w ∈ writes, p w)
    (h' : ∃ writes, c.tp.log = b.tp.log ++ writes ∧ ∀ w ∈ writes, p w) :
    ∃ writes, c.tp.log = a.tp.log ++ writes ∧ ∀ w ∈ writes, p w := by
  obtain ⟨ws, hw, hf⟩ := h
  obtain ⟨ws', hw', hf'⟩ := h'
  refine ⟨ws ++ ws', by rw [hw', hw, List.append_assoc], ?_⟩
  intro w hm
  rcases List.mem_append.mp hm with hm | hm
  · exact hf w hm
  · exact hf' w hm

-- Everything the reader writes is a control frame, in writes of its own.
def ControlWrites (c c' : Conn ε δ) : Prop :=
  ∃ writes : List Write, c'.tp.log = c.tp.log ++ writes ∧
    ∀ w ∈ writes, ∀ f ∈ w.frames, f.ftype ≠ .headers ∧ f.ftype ≠ .data

namespace ControlWrites

theorem of_log {c c' : Conn ε δ} (h : c'.tp.log = c.tp.log) : ControlWrites c c' :=
  ⟨[], by simpa using h, by simp⟩

theorem trans {a b c : Conn ε δ} (h : ControlWrites a b) (h' : ControlWrites b c) :
    ControlWrites a c := log_append h h'

theorem of_micros {kind : FrameType} {c c' : Conn ε δ} (h : Micros kind c c') :
    ControlWrites c c' := by
  refine h.lift (fun c => of_log rfl) (fun _ _ _ => trans) ?_
  intro c c' hm
  have hone : ∀ frames : List Frame, (∀ f ∈ frames, f.ftype ≠ .headers ∧ f.ftype ≠ .data) →
      ControlWrites c (c.write frames).1 :=
    fun frames hf => ⟨[⟨frames, c.tp.fate c.tp.log.length⟩], rfl, by simpa using hf⟩
  cases hm with
  | credit f _ => exact hone _ (by unfold dataCredit; split <;> simp [windowUpdate])
  | control f hf => exact hone _ (by rcases hf with hf | hf | hf <;> simp [hf])
  | _ => exact of_log rfl

theorem exitReader (c : Conn ε δ) (exc : Exn) : ControlWrites c (c.exitReader exc) := by
  apply of_log
  simp only [Conn.exitReader, failAll, failItems_eq]

end ControlWrites

-- What a send never changes, whichever way it ends.
structure SendKept (c c' : Conn ε δ) : Prop where
  dec : c'.dec = c.dec
  closed : c'.closed = c.closed
  closing : c'.closing = c.closing
  maxConcurrent : c'.maxConcurrent = c.maxConcurrent
  goawayLast : c'.goawayLast = c.goawayLast
  reading : c'.reading = c.reading
  fate : c'.tp.fate = c.tp.fate
  stop : c'.tp.stop = c.tp.stop
  live : c'.tp.live = c.tp.live

theorem sendKept_send (hp : Hpack ε δ) (c : Conn ε δ) (args : SendArgs) :
    SendKept c (c.send hp args).1 := by
  unfold send
  rcases c.trySend_cases hp args with ⟨_, exc, he⟩ | ⟨fields, _, _, he⟩ <;> rw [he]
  · exact ⟨rfl, rfl, rfl, rfl, rfl, rfl, rfl, rfl, rfl⟩
  · rcases (c.allocate.register c.nextId args.maxBytes).emit_cases hp c.nextId fields args.body with
      ⟨exc, _, hm⟩ | ⟨block, data, _, _, _, hm⟩ <;> rw [hm] <;>
      exact ⟨rfl, rfl, rfl, rfl, rfl, rfl, rfl, rfl, rfl⟩

end Conn

-- Everything a step can be. A reader that is left with an exception ends.
inductive Happens (hp : Hpack ε δ) (c : Conn ε δ) : Event → Conn ε δ → Prop
  | frame (f : Frame) (hr : c.reading = true) (hw : f.onWire) (hn : (c.dispatch hp f).2 = none) :
      Happens hp c (.frame f) (c.dispatch hp f).1
  | raised (f : Frame) (exc : Exn) (hr : c.reading = true) (hw : f.onWire)
      (he : (c.dispatch hp f).2 = some exc) :
      Happens hp c (.frame f) ((c.dispatch hp f).1.exitReader exc)
  | eof (hr : c.reading = true) : Happens hp c .eof (c.exitReader Conn.peerClosed)
  | stopped (hr : c.reading = true) (hs : c.tp.stop = true) :
      Happens hp c .readTimeout (c.exitReader Conn.peerClosed)
  | idle (hr : c.reading = true) (hs : c.tp.stop = false) : Happens hp c .readTimeout c
  | acquire (ha : c.acquirable = true) : Happens hp c .acquire { c with refs := c.refs + 1 }
  | refused (ha : c.acquirable = false) : Happens hp c .acquire c
  | send (args : SendArgs) : Happens hp c (.send args) (c.send hp args).1
  | rst (sid : Nat) : Happens hp c (.rst sid) (c.sendRst sid)
  | pop (sid : Nat) : Happens hp c (.pop sid) (c.pop sid)
  | close : Happens hp c .close c.close

theorem step_happens {hp : Hpack ε δ} {c c' : Conn ε δ} {e : Event} (hs : step hp c e = some c') :
    Happens hp c e c' := by
  cases e with
  | frame f =>
      simp only [step, Option.ite_none_right_eq_some, Option.some.injEq] at hs
      obtain ⟨⟨hr, hw⟩, rfl⟩ := hs
      rcases c.readFrame_cases hp f with ⟨hn, he⟩ | ⟨exc, hexc, he⟩ <;> rw [he]
      · exact .frame f hr hw hn
      · exact .raised f exc hr hw hexc
  | eof =>
      simp only [step, Option.ite_none_right_eq_some, Option.some.injEq] at hs
      obtain ⟨hr, rfl⟩ := hs
      exact .eof hr
  | readTimeout =>
      simp only [step, Option.ite_none_right_eq_some, Option.some.injEq] at hs
      obtain ⟨hr, rfl⟩ := hs
      unfold Conn.readTimeout
      split
      · exact .stopped hr ‹_›
      · rename_i hstop
        exact .idle hr (by simpa using hstop)
  | acquire =>
      cases hs
      unfold Conn.acquire
      split
      · exact .acquire ‹_›
      · rename_i ha
        exact .refused (by simpa using ha)
  | send args => cases hs; exact .send args
  | rst sid => cases hs; exact .rst sid
  | pop sid => cases hs; exact .pop sid
  | close => cases hs; exact .close

end NeverFox.H2
