import NeverFox.H2.Lemmas
import NeverFox.H2.Peer

namespace NeverFox.H2

variable {ε δ : Type}

-- What a write grants the peer on the connection; one that raised grants nothing
-- the account counts, and the reader does not survive it.
def Write.credit (w : Write) : Nat :=
  if w.cut = none then (w.frames.map Frame.connectionCredit).sum else 0

def Conn.credited (c : Conn ε δ) : Nat := (c.tp.log.map Write.credit).sum

def dataDue : Event → Nat
  | .frame f => f.dataLength
  | _ => 0

-- A DATA frame is credited when it has octets and its stream is registered and pending.
def dataHeard (c : Conn ε δ) : Event → Bool
  | .frame f =>
      f.dataLength = 0 || (f.sid ∈ c.streams && !(c.obj f.sid).done)
  | _ => true

theorem connectionCredit_dataCredit (f : Frame) (hwire : f.onWire) (hsid : f.sid ≠ 0) :
    ((Conn.dataCredit f).map Frame.connectionCredit).sum = f.payload.length := by
  have hlen : unpackU32 (packU32 f.payload.length) = f.payload.length :=
    unpackU32_packU32 _ (Nat.lt_trans hwire.1 (by decide))
  unfold Conn.dataCredit
  split <;> simp [windowUpdate, Frame.connectionCredit, hlen, hsid]

theorem credited_write (c : Conn ε δ) (frames : List Frame) :
    (c.write frames).1.credited = c.credited + Write.credit ⟨frames, c.tp.fate c.tp.log.length⟩ := by
  simp [Conn.credited, Conn.write]

theorem credited_write_of_none (c : Conn ε δ) (frames : List Frame)
    (hz : (frames.map Frame.connectionCredit).sum = 0) : (c.write frames).1.credited = c.credited := by
  rw [credited_write]
  unfold Write.credit
  split <;> simp [hz]

theorem credited_micros {kind : FrameType} (hk : kind ≠ .data) {c c' : Conn ε δ}
    (h : Conn.Micros kind c c') : c'.credited = c.credited := by
  refine h.lift (r := fun c c' => c'.credited = c.credited) (fun _ => rfl) (fun _ _ _ h h' => h'.trans h) ?_
  intro c c' hm
  cases hm with
  | chunk _ hk' | credit _ hk' => exact absurd hk' hk
  | control f hf =>
      exact credited_write_of_none c _ (by
        rcases hf with hf | hf | hf <;> simp [Frame.connectionCredit, hf])
  | _ => rfl

theorem credited_sendRst (c : Conn ε δ) (sid : Nat) : (c.sendRst sid).credited = c.credited :=
  credited_micros (by decide) (Conn.Micros.sendRst c sid : Conn.Micros .rst c _)

theorem credited_settleData (c : Conn ε δ) (f : Frame) : (c.settleData f).credited = c.credited :=
  credited_micros (by decide) (Conn.Micros.settleData c f : Conn.Micros .rst c _)

-- Of a reader that goes on, DATA is credited in full if it is heard and not at all if not.
theorem credited_onData (c : Conn ε δ) (f : Frame) (hwire : f.onWire) (hzero : 0 ∉ c.streams)
    (hraised : (c.onData f).2 = none) :
    (c.onData f).1.credited =
      c.credited + if f.sid ∈ c.streams ∧ (c.obj f.sid).done = false then f.payload.length else 0 := by
  rcases c.onData_cases f with ⟨hno, he⟩ | ⟨hheard, ⟨hp, he⟩ | ⟨hp, hcut, he⟩ | ⟨exc, he⟩⟩
  · rw [he, if_neg hno]
    rfl
  · rw [he, credited_settleData, hp]
    simp only [List.length_nil, ite_self]
    rfl
  · have hsid : f.sid ≠ 0 := fun h => hzero (h ▸ hheard.1)
    rw [he, credited_settleData, credited_write, if_pos hheard]
    simp only [Conn.addChunk, Conn.modify, Write.credit, hcut, ↓reduceIte,
      connectionCredit_dataCredit f hwire hsid]
    rfl
  · simp [he] at hraised

theorem credited_dispatch (hp : Hpack ε δ) (c : Conn ε δ) (f : Frame) (hwire : f.onWire)
    (hzero : 0 ∉ c.streams) (hraised : (c.dispatch hp f).2 = none) :
    (c.dispatch hp f).1.credited =
      c.credited + if f.sid ∈ c.streams ∧ (c.obj f.sid).done = false then f.dataLength else 0 := by
  by_cases ht : f.ftype = .data
  · have hd : c.dispatch hp f = c.onData f := by unfold Conn.dispatch; rw [ht]
    rw [hd] at hraised ⊢
    simpa [Frame.dataLength, ht] using credited_onData c f hwire hzero hraised
  · have hlen : f.dataLength = 0 := by simp [Frame.dataLength, ht]
    simp only [hlen, ite_self, Nat.add_zero]
    exact credited_micros ht (Conn.Micros.dispatch hp c f)

theorem connectionCredit_request (sid : Nat) (block data : Bytes) (endStream : Bool) :
    ((headersFrame sid block endStream :: dataFrames sid data).map Frame.connectionCredit).sum = 0 := by
  have hdata : ∀ n ∈ (dataFrames sid data).map Frame.connectionCredit, n = 0 := by
    intro n hn
    obtain ⟨frame, hf, rfl⟩ := List.mem_map.mp hn
    simp [Frame.connectionCredit, dataFrames_ftype sid data frame hf]
  have hhead : (headersFrame sid block endStream).connectionCredit = 0 := by
    simp [Frame.connectionCredit]
  simp [hhead, List.sum_eq_zero_iff_forall_eq_nat.mpr hdata]

theorem credited_send (hp : Hpack ε δ) (c : Conn ε δ) (args : SendArgs) :
    (c.send hp args).1.credited = c.credited := by
  change (c.trySend hp args).1.credited = c.credited
  rcases c.trySend_cases hp args with ⟨_, exc, he⟩ | ⟨fields, _, _, he⟩ <;> rw [he]
  rcases (c.allocate.register c.nextId args.maxBytes).emit_cases hp c.nextId fields args.body with
    ⟨exc, _, hm⟩ | ⟨block, data, _, _, _, hm⟩ <;> rw [hm]
  · rfl
  · exact credited_write_of_none _ _ (connectionCredit_request _ _ _ _)

-- Ids start at 1, so no stream is ever registered under the connection's own id.
def Conn.NoZero (c : Conn ε δ) : Prop := 0 < c.nextId ∧ 0 ∉ c.streams

theorem Conn.NoZero.of_stable {c c' : Conn ε δ} (h : c.NoZero) (hk : Stable c c') : c'.NoZero := by
  unfold NoZero
  rw [hk.nextId, hk.streams]
  exact h

theorem Conn.NoZero.send {c : Conn ε δ} (h : c.NoZero) (hp : Hpack ε δ) (args : SendArgs) :
    (c.send hp args).1.NoZero := by
  change (c.trySend hp args).1.NoZero
  have hregister : (c.allocate.register c.nextId args.maxBytes).NoZero := by
    refine ⟨Nat.lt_of_lt_of_le h.1 (Nat.le_add_right _ _), ?_⟩
    have hne : 0 ≠ c.nextId := Nat.ne_of_lt h.1
    unfold register allocate
    dsimp only
    split
    · exact h.2
    · simp [h.2, hne]
  rcases c.trySend_cases hp args with ⟨_, exc, he⟩ | ⟨fields, _, _, he⟩ <;> rw [he]
  · exact h
  · rcases (c.allocate.register c.nextId args.maxBytes).emit_cases hp c.nextId fields args.body with
      ⟨exc, _, hm⟩ | ⟨block, data, _, _, _, hm⟩ <;> rw [hm] <;> exact hregister

theorem reading_of_step (hp : Hpack ε δ) (c : Conn ε δ) (e : Event) (c' : Conn ε δ)
    (hs : step hp c e = some c') (hr : c'.reading = true) : c.reading = true := by
  cases step_happens hs with
  | frame _ h | raised _ _ h | eof h | stopped h | idle h => exact h
  | acquire | refused | pop => exact hr
  | send args => exact (c.sendKept_send hp args).reading ▸ hr
  | rst sid => exact (c.kept_sendRst sid).reading ▸ hr
  | close => exact c.reading_close ▸ hr

theorem credited_close (c : Conn ε δ) : c.close.credited = c.credited := by
  unfold Conn.credited
  rw [c.log_close]

-- What one step adds to the account, of a reader that survives it.
theorem credited_step (hp : Hpack ε δ) (c : Conn ε δ) (e : Event) (c' : Conn ε δ) (hz : c.NoZero)
    (hs : step hp c e = some c') (hr : c'.reading = true) :
    c'.NoZero ∧ c'.credited ≤ c.credited + dataDue e ∧
      (c'.credited = c.credited + dataDue e ↔ dataHeard c e = true) := by
  cases step_happens hs with
  | frame f _ hwire hn =>
      have hc := credited_dispatch hp c f hwire hz.2 hn
      refine ⟨hz.of_stable (c.kept_dispatch hp f).toStable, ?_⟩
      rw [hc]
      simp only [dataDue, dataHeard, Bool.or_eq_true, decide_eq_true_eq, Bool.and_eq_true,
        Bool.not_eq_true']
      split <;> rename_i hh <;> simp [hh]
  | raised _ _ _ _ _ | eof _ | stopped _ _ => cases hr
  | idle _ _ | refused _ => simp [dataDue, dataHeard, hz]
  | acquire _ =>
      have hn : ({ c with refs := c.refs + 1 } : Conn ε δ).NoZero := hz
      exact ⟨hn, Nat.le_add_right _ _, by simp [Conn.credited, dataDue, dataHeard]⟩
  | send args => simp [credited_send, hz.send hp args, dataDue, dataHeard]
  | rst sid =>
      simp [credited_sendRst, hz.of_stable (c.kept_sendRst sid).toStable, dataDue, dataHeard]
  | pop sid =>
      have hn : (c.pop sid).NoZero := ⟨hz.1, fun hm => hz.2 (List.mem_of_mem_erase hm)⟩
      have hc : (c.pop sid).credited = c.credited := rfl
      simp [hn, hc, dataDue, dataHeard]
  | close => simp [credited_close, hz.of_stable c.stable_close, dataDue, dataHeard]

theorem dataDue_sum (events : List Event) :
    (events.map dataDue).sum = ((framesOf events).map Frame.dataLength).sum := by
  induction events with
  | nil => rfl
  | cons e rest ih => cases e <;> simp [framesOf, dataDue] <;> exact ih

-- After the reader has dispatched a sequence of frames, the increments written
-- on the connection add up to the DATA octets received exactly when every DATA
-- frame with octets found its stream registered and pending.
theorem window_conserved_iff (hp : Hpack ε δ) (fate : Nat → Option Nat) (events : List Event)
    (c : Conn ε δ) (hrun : Transition.run (step hp) (Conn.init hp fate) events = some c)
    (hreading : c.reading = true) :
    c.credited = FF_CONN_WINDOW_INCREMENT + ((framesOf events).map Frame.dataLength).sum ↔
      Transition.Meets (step hp) (fun c e => dataHeard c e) (Conn.init hp fate) events := by
  have hinit : (Conn.init hp fate).credited = FF_CONN_WINDOW_INCREMENT := by
    have hc : (Conn.init hp fate).credited =
        (openingFrames.map Frame.connectionCredit).sum := by simp [Conn.init, Conn.credited, Write.credit]
    rw [hc]
    decide
  have hz : (Conn.init hp fate).NoZero := ⟨Nat.one_pos, by simp [Conn.init]⟩
  have haccount := (Transition.account Conn.credited dataDue Conn.NoZero (fun c => c.reading = true)
    (reading_of_step hp) (credited_step hp) hz hrun hreading).2
  rw [hinit, dataDue_sum] at haccount
  exact haccount

def dataChunk (sid : Nat) (data : Bytes) : Frame := ⟨.data, 0, sid, data⟩

theorem window_conserved_one_chunk :
    ∃ c, Transition.run (step recorder) (Conn.init recorder fun _ => none)
        [.send getRequest, .frame (dataChunk 1 [1, 2, 3])] = some c ∧
      c.credited = FF_CONN_WINDOW_INCREMENT + 3 :=
  ⟨_, rfl, (window_conserved_iff recorder (fun _ => none)
    [.send getRequest, .frame (dataChunk 1 [1, 2, 3])] _ rfl rfl).mpr (by decide)⟩

-- DATA in flight for a request that was cancelled is never credited.
theorem popped_stream_leaks_window :
    ∃ events c, Transition.run (step recorder) (Conn.init recorder fun _ => none) events = some c ∧
      c.reading = true ∧
      c.credited ≠ FF_CONN_WINDOW_INCREMENT + ((framesOf events).map Frame.dataLength).sum :=
  ⟨[.send getRequest, .rst 1, .pop 1, .frame (dataChunk 1 [1, 2, 3])], _, rfl, rfl, by decide⟩

end NeverFox.H2
