import NeverFox.H2.Lemmas

namespace NeverFox.H2

variable {ε δ : Type}

namespace Conn

-- What the waiter takes from the stream object it kept.
def outcome (st : Stream) : Except Exn RawResponse :=
  match st.error with
  | some exc => .error exc
  | none => .ok ⟨st.status, st.headers, st.chunks.flatten⟩

-- Whatever happens on the connection meanwhile.
def after (hp : Hpack ε δ) (c : Conn ε δ) (events : List Event) : Conn ε δ :=
  events.foldl (fun c e => (step hp c e).getD c) c

def requestTimeout (timeout : Nat) : Exn := .timeoutError s!"h2 request timeout after {timeout}s"

-- `request`: `wait` happens until the waiter wakes, `late` before it has read
-- the stream object.
def request (hp : Hpack ε δ) (c : Conn ε δ) (args : SendArgs) (timeout : Nat)
    (wait late : List Event) : Except Exn RawResponse × Conn ε δ :=
  match c.send hp args with
  | (c, .error exc) => (.error exc, c)
  | (c, .ok sid) =>
      let c := c.after hp wait
      if (c.obj sid).done then
        let c := c.after hp late
        (outcome (c.obj sid), c.pop sid)
      else (.error (requestTimeout timeout), ((c.sendRst sid).after hp late).pop sid)

-- A send that gets as far as its write.
def writes (hp : Hpack ε δ) (c : Conn ε δ) (args : SendArgs) : Bool :=
  c.tp.log.length < (c.send hp args).1.tp.log.length

end Conn

-- The stream of one request counts what it stores.
structure Stored (c : Conn ε δ) (sid cap : Nat) : Prop where
  old : sid < c.nextId
  maxBytes : (c.obj sid).maxBytes = cap
  counted : (c.obj sid).nbytes = ((c.obj sid).chunks.map List.length).sum

-- Between two steps a stream past its cap has failed.
structure Capped (c : Conn ε δ) (sid cap : Nat) : Prop extends Stored c sid cap where
  bounded : cap = 0 ∨ (c.obj sid).nbytes ≤ cap ∨ (c.obj sid).error.isSome

-- A step that stores no octets of the stream and keeps its error.
structure BodyKept (c c' : Conn ε δ) (sid : Nat) : Prop where
  nextId : c.nextId ≤ c'.nextId
  maxBytes : (c'.obj sid).maxBytes = (c.obj sid).maxBytes
  nbytes : (c'.obj sid).nbytes = (c.obj sid).nbytes
  chunks : (c'.obj sid).chunks = (c.obj sid).chunks
  error : (c.obj sid).error.isSome → (c'.obj sid).error.isSome

theorem Stored.keep {c c' : Conn ε δ} {sid cap : Nat} (h : Stored c sid cap)
    (hk : BodyKept c c' sid) : Stored c' sid cap :=
  ⟨Nat.lt_of_lt_of_le h.old hk.nextId, hk.maxBytes.trans h.maxBytes, by
    rw [hk.nbytes, hk.chunks]; exact h.counted⟩

theorem Capped.keep {c c' : Conn ε δ} {sid cap : Nat} (h : Capped c sid cap)
    (hk : BodyKept c c' sid) : Capped c' sid cap := by
  refine ⟨h.toStored.keep hk, ?_⟩
  rw [hk.nbytes]
  rcases h.bounded with hb | hb | hb
  · exact .inl hb
  · exact .inr (.inl hb)
  · exact .inr (.inr (hk.error hb))

namespace BodyKept

variable {sid : Nat}

theorem trans {a b c : Conn ε δ} (h : BodyKept a b sid) (h' : BodyKept b c sid) : BodyKept a c sid :=
  ⟨Nat.le_trans h.nextId h'.nextId, h'.maxBytes.trans h.maxBytes, h'.nbytes.trans h.nbytes,
    h'.chunks.trans h.chunks, h'.error ∘ h.error⟩

theorem of_obj {c c' : Conn ε δ} (hn : c.nextId ≤ c'.nextId) (ho : c'.obj sid = c.obj sid) :
    BodyKept c c' sid :=
  ⟨hn, by rw [ho], by rw [ho], by rw [ho], by rw [ho]; exact id⟩

theorem modify (c : Conn ε δ) (other : Nat) (f : Stream → Stream)
    (hf : ∀ st, (f st).maxBytes = st.maxBytes ∧ (f st).nbytes = st.nbytes ∧
      (f st).chunks = st.chunks ∧ (st.error.isSome → (f st).error.isSome)) :
    BodyKept c (c.modify other f) sid := by
  by_cases ho : sid = other
  · subst ho
    obtain ⟨hm, hn, hc, he⟩ := hf (c.obj sid)
    refine ⟨Nat.le_refl _, ?_, ?_, ?_, ?_⟩ <;> simp only [Conn.modify, Function.update_self]
    · exact hm
    · exact hn
    · exact hc
    · exact he
  · exact of_obj (Nat.le_refl _) (by simp [Conn.modify, ho])

theorem of_micros {kind : FrameType} (hk : kind ≠ .data) {c c' : Conn ε δ}
    (h : Conn.Micros kind c c') : BodyKept c c' sid := by
  refine h.lift (r := fun c c' => BodyKept c c' sid) (fun c => of_obj (Nat.le_refl _) rfl) (fun _ _ _ => trans) ?_
  intro c c' hm
  cases hm with
  | chunk _ hk' | credit _ hk' => exact absurd hk' hk
  | store other fields _ =>
      refine modify c other _ fun st => ?_
      obtain ⟨status, headers, he⟩ := Conn.storeFields_kept st fields
      rw [he]
      exact ⟨rfl, rfl, rfl, id⟩
  | finish other => exact modify c other _ fun st => ⟨rfl, rfl, rfl, id⟩
  | fail other exc => exact modify c other _ fun st => ⟨rfl, rfl, rfl, fun _ => rfl⟩
  | _ => exact of_obj (Nat.le_refl _) rfl

theorem sendRst (c : Conn ε δ) (other : Nat) : BodyKept c (c.sendRst other) sid :=
  of_micros (by decide) (Conn.Micros.sendRst c other : Conn.Micros .rst c _)

theorem exitReader (c : Conn ε δ) (exc : Exn) : BodyKept c (c.exitReader exc) sid := by
  have hfail : BodyKept { c with closed := true }
      ({ c with closed := true }.failItems exc (fun _ => true) c.streams) sid :=
    of_micros (by decide) (Conn.Micros.failItems _ _ _ _ : Conn.Micros .rst _ _)
  exact ⟨hfail.nextId, hfail.maxBytes, hfail.nbytes, hfail.chunks, hfail.error⟩

end BodyKept

theorem Stored.addChunk {c : Conn ε δ} {sid cap : Nat} (h : Stored c sid cap) (f : Frame) :
    Stored (c.addChunk f) sid cap := by
  by_cases hs : sid = f.sid
  · subst hs
    refine ⟨h.old, ?_, ?_⟩ <;> simp only [Conn.addChunk, Conn.modify, Function.update_self]
    · exact h.maxBytes
    · simp [h.counted]
  · exact h.keep (.of_obj (Nat.le_refl _) (by simp [Conn.addChunk, Conn.modify, hs]))

-- The settling of DATA fails the stream if it is past its cap.
theorem Stored.settle {c : Conn ε δ} {cap : Nat} {f : Frame} (h : Stored c f.sid cap) :
    Capped (c.settleData f) f.sid cap := by
  refine ⟨h.keep (.of_micros (by decide) (Conn.Micros.settleData c f : Conn.Micros .rst c _)), ?_⟩
  unfold Conn.settleData
  dsimp only
  rw [h.maxBytes]
  split
  · exact .inr (.inr (by simp [Conn.fail, Conn.modify]))
  · rename_i hno
    have hbound : cap = 0 ∨ (c.obj f.sid).nbytes ≤ cap := by omega
    rcases hbound with hb | hb
    · exact .inl hb
    · refine .inr (.inl ?_)
      split
      · simpa [Conn.finish, Conn.modify] using hb
      · exact hb

-- A pending stream fails when the reader ends.
theorem Stored.exitReader {c : Conn ε δ} {sid cap : Nat} (h : Stored c sid cap)
    (hm : sid ∈ c.streams) (hd : (c.obj sid).done = false) (exc : Exn) :
    Capped (c.exitReader exc) sid cap := by
  refine ⟨h.keep (.exitReader c exc), .inr (.inr ?_)⟩
  simp [Conn.exitReader, Conn.failAll, Conn.failItems_eq, hm, hd]

namespace Capped

variable {hp : Hpack ε δ} {c c' : Conn ε δ} {sid cap : Nat}

-- Octets past the cap leave the stream failed, whether settled or cut off.
theorem onData (h : Capped c sid cap) (f : Frame) :
    ((c.onData f).2 = none → Capped (c.onData f).1 sid cap) ∧
      ∀ exc, (c.onData f).2 = some exc → Capped ((c.onData f).1.exitReader exc) sid cap := by
  have hchunk := h.toStored.addChunk f
  have hother : sid ≠ f.sid → Capped (c.addChunk f) sid cap := fun hs =>
    h.keep (.of_obj (Nat.le_refl _) (by simp [Conn.addChunk, Conn.modify, hs]))
  have hwrite : BodyKept (c.addChunk f) ((c.addChunk f).write (Conn.dataCredit f)).1 sid :=
    .of_obj (Nat.le_refl _) rfl
  have hsettle : ∀ c : Conn ε δ, BodyKept c (c.settleData f) sid := fun c =>
    .of_micros (by decide) (Conn.Micros.settleData c f : Conn.Micros .rst c _)
  rcases c.onData_cases f with ⟨_, he⟩ | ⟨hheard, ⟨_, he⟩ | ⟨_, _, he⟩ | ⟨exc, he⟩⟩ <;> rw [he]
  · exact ⟨fun _ => h, by simp⟩
  · refine ⟨fun _ => ?_, by simp⟩
    by_cases hs : sid = f.sid
    · subst hs; exact hchunk.settle
    · exact (hother hs).keep (hsettle _)
  · refine ⟨fun _ => ?_, by simp⟩
    by_cases hs : sid = f.sid
    · subst hs; exact (hchunk.keep hwrite).settle
    · exact ((hother hs).keep hwrite).keep (hsettle _)
  · refine ⟨by simp, fun exc' _ => ?_⟩
    by_cases hs : sid = f.sid
    · subst hs
      refine (hchunk.keep hwrite).exitReader hheard.1 ?_ exc'
      simpa [Conn.write, Conn.addChunk, Conn.modify] using hheard.2
    · exact ((hother hs).keep hwrite).keep (.exitReader _ exc')

theorem dispatch (h : Capped c sid cap) (hp : Hpack ε δ) (f : Frame) :
    ((c.dispatch hp f).2 = none → Capped (c.dispatch hp f).1 sid cap) ∧
      ∀ exc, (c.dispatch hp f).2 = some exc → Capped ((c.dispatch hp f).1.exitReader exc) sid cap := by
  by_cases ht : f.ftype = .data
  · have hd : c.dispatch hp f = c.onData f := by unfold Conn.dispatch; rw [ht]
    rw [hd]
    exact h.onData f
  · have hk := h.keep (.of_micros ht (Conn.Micros.dispatch hp c f))
    exact ⟨fun _ => hk, fun exc _ => hk.keep (.exitReader _ exc)⟩

-- A later send takes a fresh id.
theorem send (h : Capped c sid cap) (hp : Hpack ε δ) (args : SendArgs) :
    Capped (c.send hp args).1 sid cap := by
  apply h.keep
  rw [c.send_fst]
  rcases c.trySend_cases hp args with ⟨_, exc, he⟩ | ⟨fields, _, _, he⟩ <;> rw [he]
  · exact .of_obj (Nat.le_refl _) rfl
  · obtain ⟨writes, hm⟩ := (c.allocate.register c.nextId args.maxBytes).emit_state hp c.nextId
      fields args.body
    rw [hm]
    refine .of_obj (Nat.le_add_right _ _) ?_
    exact Function.update_of_ne (Nat.ne_of_lt h.old) _ _

theorem close (h : Capped c sid cap) : Capped c.close sid cap := by
  have hk : BodyKept c (c.exitReader (.connectionError "connection closed")) sid := .exitReader c _
  rcases c.close_cases with ⟨_, he⟩ | ⟨_, he⟩ | ⟨_, he⟩ <;> rw [he]
  · exact h
  · exact h.keep (.of_obj (Nat.le_refl _) rfl)
  · exact h.keep ⟨Nat.le_refl _, hk.maxBytes, hk.nbytes, hk.chunks, hk.error⟩

theorem step (h : Capped c sid cap) {e : Event} (hs : H2.step hp c e = some c') :
    Capped c' sid cap := by
  cases step_happens hs with
  | frame f _ _ hn => exact (h.dispatch hp f).1 hn
  | raised f exc _ _ he => exact (h.dispatch hp f).2 exc he
  | eof | stopped => exact h.keep (.exitReader c _)
  | idle | refused => exact h
  | acquire | pop => exact h.keep (.of_obj (Nat.le_refl _) rfl)
  | send args => exact h.send hp args
  | rst other => exact h.keep (.sendRst c other)
  | close => exact h.close

theorem after (h : Capped c sid cap) (hp : Hpack ε δ) (events : List Event) :
    Capped (c.after hp events) sid cap := by
  induction events generalizing c with
  | nil => exact h
  | cons e rest ih =>
      apply ih
      dsimp only
      cases hs : H2.step hp c e with
      | none => exact h
      | some c' => exact h.step hs

end Capped

-- The stream of a send that went through is fresh.
theorem capped_send {hp : Hpack ε δ} {c c' : Conn ε δ} {args : SendArgs} {sid : Nat}
    (hs : c.send hp args = (c', .ok sid)) : Capped c' sid args.maxBytes := by
  have hfst : c' = (c.trySend hp args).1.release := by rw [← c.send_fst, hs]
  have hsnd : (c.trySend hp args).2 = .ok sid := by rw [← c.send_snd, hs]
  subst hfst
  rcases c.trySend_cases hp args with ⟨_, exc, he⟩ | ⟨fields, _, _, he⟩ <;> rw [he] at hsnd ⊢
  · cases hsnd
  · obtain ⟨writes, hm⟩ := (c.allocate.register c.nextId args.maxBytes).emit_state hp c.nextId
      fields args.body
    have hsid : sid = c.nextId := by
      dsimp only at hsnd
      split at hsnd
      · exact (Except.ok.inj hsnd).symm
      · cases hsnd
    subst hsid
    rw [hm]
    refine ⟨⟨?_, ?_, ?_⟩, .inr (.inl ?_)⟩ <;>
      simp [Conn.release, Conn.register, Conn.allocate]

-- A request that returns has kept its body within the cap.
theorem request_capped (hp : Hpack ε δ) (c : Conn ε δ) (args : SendArgs) (timeout : Nat)
    (wait late : List Event) (raw : RawResponse) (hcap : args.maxBytes ≠ 0)
    (hr : (c.request hp args timeout wait late).1 = .ok raw) :
    raw.body.length ≤ args.maxBytes := by
  unfold Conn.request at hr
  split at hr
  · cases hr
  · rename_i c' sid hs
    dsimp only at hr
    split at hr
    · have hc := ((capped_send hs).after hp wait).after hp late
      unfold Conn.outcome at hr
      split at hr
      · cases hr
      · rename_i hnone
        have hbody : raw.body = (((c'.after hp wait).after hp late).obj sid).chunks.flatten := by
          rw [← Except.ok.inj hr]
        rw [hbody, List.length_flatten, ← hc.counted]
        rcases hc.bounded with hb | hb | hb
        · exact absurd hb hcap
        · exact hb
        · simp [hnone] at hb
    · cases hr

end NeverFox.H2
