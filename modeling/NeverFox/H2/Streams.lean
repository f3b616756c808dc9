import NeverFox.H2.Lemmas

namespace NeverFox.H2

variable {ε δ : Type}

namespace Conn

-- A connection that is not closed has its reader, and nobody has asked it to stop.
structure Live (c : Conn ε δ) : Prop where
  reading : c.closed = false → c.reading = true
  closing : c.closed = false → c.closing = false
  stop : c.closed = false → c.tp.stop = false

theorem live_init (hp : Hpack ε δ) (fate : Nat → Option Nat) : Live (.init hp fate) :=
  ⟨fun _ => rfl, fun _ => rfl, fun _ => rfl⟩

theorem Live.of_closed {c : Conn ε δ} (h : c.closed = true) : Live c := by
  constructor <;> intro hc <;> simp [h] at hc

theorem Live.kept {c c' : Conn ε δ} (h : Live c) (hk : Kept c c') : Live c' := by
  by_cases hc : c.closed = true
  · exact .of_closed (hk.closed hc)
  · have hc' : c.closed = false := by simpa using hc
    exact ⟨fun _ => hk.reading.trans (h.reading hc'), fun _ => hk.closing.trans (h.closing hc'),
      fun _ => hk.stop.trans (h.stop hc')⟩

theorem closed_close {c : Conn ε δ} (h : c.closing = true → c.closed = true) : c.close.closed = true := by
  rcases c.close_cases with ⟨hc, he⟩ | ⟨_, he⟩ | ⟨_, he⟩ <;> rw [he]
  exact h hc

theorem Live.closing_closed {c : Conn ε δ} (h : Live c) (hc : c.closing = true) : c.closed = true := by
  by_contra hn
  have hf := h.closing (by simpa using hn)
  simp [hc] at hf

theorem Live.step {hp : Hpack ε δ} {c c' : Conn ε δ} {e : Event} (h : Live c)
    (hs : H2.step hp c e = some c') : Live c' := by
  cases step_happens hs with
  | frame f => exact h.kept (kept_dispatch hp c f)
  | raised f exc => exact .of_closed (closed_exitReader _ _)
  | eof | stopped => exact .of_closed (closed_exitReader _ _)
  | idle | refused => exact h
  | acquire => exact ⟨h.reading, h.closing, h.stop⟩
  | send args =>
      have hk := sendKept_send hp c args
      refine ⟨?_, ?_, ?_⟩ <;> intro hc <;> rw [hk.closed] at hc
      · exact hk.reading.trans (h.reading hc)
      · exact hk.closing.trans (h.closing hc)
      · exact hk.stop.trans (h.stop hc)
  | rst sid => exact h.kept (kept_sendRst c sid)
  | pop sid => exact ⟨h.reading, h.closing, h.stop⟩
  | close => exact .of_closed (closed_close h.closing_closed)

-- Once closed, a connection stays closed.
theorem closed_step {hp : Hpack ε δ} {c c' : Conn ε δ} {e : Event} (h : Live c)
    (hs : H2.step hp c e = some c') (hc : c.closed = true) : c'.closed = true := by
  cases step_happens hs with
  | frame f => exact (kept_dispatch hp c f).closed hc
  | raised f exc => exact closed_exitReader _ _
  | eof | stopped => exact closed_exitReader _ _
  | idle | refused => exact hc
  | acquire => exact hc
  | send args => exact (sendKept_send hp c args).closed.trans hc
  | rst sid => exact (kept_sendRst c sid).closed hc
  | pop sid => exact hc
  | close => exact closed_close h.closing_closed

theorem mem_register (c : Conn ε δ) (sid maxBytes other : Nat) :
    other ∈ (c.register sid maxBytes).streams ↔ other ∈ c.streams ∨ other = sid := by
  unfold register
  dsimp only
  split
  · rename_i hin
    exact ⟨.inl, fun h => h.elim id fun he => he ▸ hin⟩
  · simp

-- What a send leaves of the streams: nothing new, or the next id with a fresh object.
theorem send_cases (hp : Hpack ε δ) (c : Conn ε δ) (args : SendArgs) :
    ((c.send hp args).1.nextId = c.nextId ∧ (c.send hp args).1.obj = c.obj ∧
        (c.send hp args).1.streams = c.streams ∧ ∃ exc, (c.send hp args).2 = .error exc) ∨
    (c.closed = false ∧ (c.send hp args).1.nextId = c.nextId + 2 ∧
      (c.send hp args).1.obj =
        Function.update c.obj c.nextId { sid := c.nextId, maxBytes := args.maxBytes } ∧
      (c.send hp args).1.streams = (c.register c.nextId args.maxBytes).streams ∧
      ∀ sid, (c.send hp args).2 = .ok sid → sid = c.nextId) := by
  rw [c.send_fst, c.send_snd]
  rcases c.trySend_cases hp args with ⟨_, exc, he⟩ | ⟨fields, hopen, _, he⟩ <;> rw [he]
  · exact .inl ⟨rfl, rfl, rfl, exc, rfl⟩
  · obtain ⟨writes, hm⟩ := (c.allocate.register c.nextId args.maxBytes).emit_state hp c.nextId
      fields args.body
    rw [hm]
    refine .inr ⟨hopen, rfl, rfl, rfl, ?_⟩
    intro sid hs
    dsimp only at hs
    split at hs
    · exact (Except.ok.inj hs).symm
    · cases hs

-- What header blocks leave of a stream as it is.
structure SameBody (st st' : Stream) : Prop where
  chunks : st'.chunks = st.chunks
  nbytes : st'.nbytes = st.nbytes
  error : st'.error = st.error

-- A finished block goes to the one stream it belongs to, if that is registered.
theorem finishHeaders_obj (hp : Hpack ε δ) (c : Conn ε δ) :
    ((c.finishHeaders hp).1.obj = c.obj ∧
      ((c.finishHeaders hp).2 = none → c.hsid.filter (· ∈ c.streams) = none)) ∨
    ∃ sid st, c.hsid = some sid ∧ sid ∈ c.streams ∧
      (c.finishHeaders hp).1.obj = Function.update c.obj sid st ∧ SameBody (c.obj sid) st ∧
      ((c.finishHeaders hp).2 = none → st.done = ((c.obj sid).done || c.hend)) := by
  unfold finishHeaders
  split
  · rename_i hn
    exact .inl ⟨rfl, fun _ => hn⟩
  · rename_i sid hf
    obtain ⟨hsid, hin⟩ := Option.filter_eq_some_iff.mp hf
    dsimp only
    split
    · exact .inl ⟨rfl, nofun⟩
    · rename_i fields _
      obtain ⟨status, headers, hst⟩ := storeFields_kept (c.obj sid) fields
      have hin' : sid ∈ c.streams := by simpa using hin
      refine .inr ⟨sid, ?_⟩
      split
      · exact ⟨_, hsid, hin', rfl, by rw [hst]; exact ⟨rfl, rfl, rfl⟩, nofun⟩
      · cases hend : c.hend with
        | true =>
            refine ⟨{ (storeFields (c.obj sid) fields).1 with done := true }, hsid, hin', ?_,
              by rw [hst]; exact ⟨rfl, rfl, rfl⟩, fun _ => by simp⟩
            simp [finish, modify, resetBlock]
        | false =>
            refine ⟨(storeFields (c.obj sid) fields).1, hsid, hin', ?_,
              by rw [hst]; exact ⟨rfl, rfl, rfl⟩, fun _ => by simp [hst]⟩
            simp [modify, resetBlock]

theorem finishHeaders_other (hp : Hpack ε δ) {c : Conn ε δ} {sid : Nat} (hs : c.hsid ≠ some sid) :
    (c.finishHeaders hp).1.obj sid = c.obj sid := by
  rcases c.finishHeaders_obj hp with ⟨hobj, _⟩ | ⟨other, st, hsid, _, hobj, _⟩ <;> rw [hobj]
  apply Function.update_of_ne
  rintro rfl
  exact hs hsid

theorem finishHeaders_self (hp : Hpack ε δ) {c : Conn ε δ} {sid : Nat} (hs : c.hsid = some sid)
    (hin : sid ∈ c.streams) (hn : (c.finishHeaders hp).2 = none) :
    SameBody (c.obj sid) ((c.finishHeaders hp).1.obj sid) ∧
      ((c.finishHeaders hp).1.obj sid).done = ((c.obj sid).done || c.hend) := by
  rcases c.finishHeaders_obj hp with ⟨_, hno⟩ | ⟨other, st, hsid, _, hobj, hsame, hd⟩
  · have hnone := hno hn
    rw [hs] at hnone
    simp [hin] at hnone
  · obtain rfl := Option.some.inj (hs.symm.trans hsid)
    rw [hobj, Function.update_self]
    exact ⟨hsame, hd hn⟩

theorem sendRst_obj (c : Conn ε δ) (sid : Nat) : (c.sendRst sid).obj = c.obj := by
  rcases c.sendRst_eq sid with h | h <;> rw [h]
  rfl

theorem settleData_other (c : Conn ε δ) (f : Frame) {sid : Nat} (hs : sid ≠ f.sid) :
    (c.settleData f).obj sid = c.obj sid := by
  unfold settleData
  dsimp only
  split
  · rw [fail, modify, sendRst_obj]
    exact Function.update_of_ne hs _ _
  · split
    · exact Function.update_of_ne hs _ _
    · rfl

theorem addChunk_other (c : Conn ε δ) (f : Frame) {sid : Nat} (hs : sid ≠ f.sid) :
    (c.addChunk f).obj sid = c.obj sid := Function.update_of_ne hs _ _

theorem onData_other (c : Conn ε δ) (f : Frame) {sid : Nat} (hs : sid ≠ f.sid) :
    (c.onData f).1.obj sid = c.obj sid := by
  rcases c.onData_cases f with ⟨_, he⟩ | ⟨_, ⟨_, he⟩ | ⟨_, _, he⟩ | ⟨exc, he⟩⟩ <;> rw [he]
  · exact (settleData_other _ f hs).trans (addChunk_other c f hs)
  · exact (settleData_other _ f hs).trans (addChunk_other c f hs)
  · exact addChunk_other c f hs

theorem write_quiet {c : Conn ε δ} (hfate : ∀ n, c.tp.fate n = none) (frames : List Frame) :
    (c.write frames).2 = none := by
  simp [write, hfate]

theorem onData_quiet {c : Conn ε δ} (hfate : ∀ n, c.tp.fate n = none) (f : Frame) :
    (c.onData f).2 = none := by
  unfold onData
  split
  · have hw : ((c.addChunk f).write (dataCredit f)).2 = none :=
      write_quiet (c := c.addChunk f) hfate (dataCredit f)
    dsimp only
    split
    · rename_i exc he
      split at he
      · cases he
      · simp only [hw] at he
        cases he
    · rfl
  · rfl

theorem readSettings_quiet (payload : Bytes) (limit : Nat) (h : 6 ∣ payload.length) :
    (readSettings payload limit).2 = none := by
  fun_induction readSettings payload limit with
  | case1 hi lo a b c d rest limit ih =>
      apply ih
      simp only [List.length_cons] at h
      omega
  | case2 hi lo rest limit hno =>
      exfalso
      rcases rest with _ | ⟨a, _ | ⟨b, _ | ⟨c, _ | ⟨d, rest⟩⟩⟩⟩
      case case2.cons.cons.cons.cons => exact hno a b c d rest rfl
      all_goals
        simp only [List.length_cons, List.length_nil] at h
        omega
  | case3 =>
      simp only [List.length_cons, List.length_nil] at h
      omega
  | case4 => rfl

theorem onSettings_quiet {c : Conn ε δ} (hfate : ∀ n, c.tp.fate n = none) (f : Frame)
    (h : 6 ∣ f.payload.length) : (c.onSettings f).2 = none := by
  unfold onSettings
  split
  · rfl
  · have hq := readSettings_quiet f.payload c.maxConcurrent h
    dsimp only
    split
    · rename_i exc he
      rw [hq] at he
      cases he
    · exact write_quiet (c := { c with maxConcurrent := _ }) hfate [settingsAck]

theorem onSettings_obj (c : Conn ε δ) (f : Frame) : (c.onSettings f).1.obj = c.obj := by
  unfold onSettings
  split
  · rfl
  · dsimp only
    split <;> rfl

theorem onPing_obj (c : Conn ε δ) (f : Frame) : (c.onPing f).1.obj = c.obj := by
  unfold onPing
  split <;> rfl

theorem onPing_quiet {c : Conn ε δ} (hfate : ∀ n, c.tp.fate n = none) (f : Frame) :
    (c.onPing f).2 = none := by
  unfold onPing
  split
  · rfl
  · exact write_quiet hfate _

theorem onGoaway_spares (c : Conn ε δ) (f : Frame) {sid : Nat} (h : sid ≤ goawayLastSid f) :
    (c.onGoaway f).obj sid = c.obj sid := by
  unfold onGoaway
  rw [failItems_eq]
  simp [markGoaway, Nat.not_lt.mpr h]

theorem onRst_other (c : Conn ε δ) (f : Frame) {sid : Nat} (hs : sid ≠ f.sid) :
    (c.onRst f).obj sid = c.obj sid := by
  unfold onRst
  split
  · exact Function.update_of_ne hs _ _
  · rfl

-- A frame that says nothing on a stream leaves its object alone.
theorem dispatch_other (hp : Hpack ε δ) {c : Conn ε δ} {f : Frame} {sid : Nat}
    (hfate : ∀ n, c.tp.fate n = none) (hh : f.ftype ≠ .headers) (hc : f.ftype ≠ .continuation)
    (hd : f.ftype = .data → sid ≠ f.sid) (hr : f.ftype = .rst → sid ≠ f.sid)
    (hg : f.ftype = .goaway → sid ≤ goawayLastSid f) (hs : f.ftype = .settings → 6 ∣ f.payload.length) :
    (c.dispatch hp f).2 = none ∧ (c.dispatch hp f).1.obj sid = c.obj sid := by
  unfold dispatch
  cases ht : f.ftype with
  | headers => exact absurd ht hh
  | continuation => exact absurd ht hc
  | data => exact ⟨onData_quiet hfate f, onData_other c f (hd ht)⟩
  | settings => exact ⟨onSettings_quiet hfate f (hs ht), by rw [onSettings_obj]⟩
  | ping => exact ⟨onPing_quiet hfate f, by rw [onPing_obj]⟩
  | goaway => exact ⟨rfl, onGoaway_spares c f (hg ht)⟩
  | rst => exact ⟨rfl, onRst_other c f (hr ht)⟩
  | windowUpdate | unknown => exact ⟨rfl, rfl⟩

-- DATA that is heard is stored and credited, and then its stream is settled.
theorem onData_settles {c : Conn ε δ} {f : Frame} (hfate : ∀ n, c.tp.fate n = none)
    (hheard : f.sid ∈ c.streams ∧ (c.obj f.sid).done = false) :
    ∃ c' : Conn ε δ, c'.obj = (c.addChunk f).obj ∧ (c.onData f).1 = c'.settleData f := by
  rcases c.onData_cases f with ⟨hno, _⟩ | ⟨_, ⟨_, he⟩ | ⟨_, _, he⟩ | ⟨exc, he⟩⟩
  · exact absurd hheard hno
  · exact ⟨c.addChunk f, rfl, by rw [he]⟩
  · exact ⟨((c.addChunk f).write (dataCredit f)).1, rfl, by rw [he]⟩
  · have hq := onData_quiet hfate f
    rw [he] at hq
    cases hq

-- DATA within the cap is stored, and ends its stream if it is the last.
theorem onData_heard {c : Conn ε δ} {f : Frame} (hfate : ∀ n, c.tp.fate n = none)
    (hheard : f.sid ∈ c.streams ∧ (c.obj f.sid).done = false)
    (hcap : (c.obj f.sid).maxBytes = 0 ∨
      (c.obj f.sid).nbytes + f.payload.length ≤ (c.obj f.sid).maxBytes) :
    (c.onData f).1.obj f.sid = { c.obj f.sid with
      chunks := (c.obj f.sid).chunks ++ [f.payload], nbytes := (c.obj f.sid).nbytes + f.payload.length
      done := f.endStream } := by
  obtain ⟨c', hobj, he⟩ := onData_settles hfate hheard
  have hst : c'.obj f.sid = { c.obj f.sid with
      chunks := (c.obj f.sid).chunks ++ [f.payload]
      nbytes := (c.obj f.sid).nbytes + f.payload.length } := by
    rw [hobj]
    exact Function.update_self ..
  have hcap' : ¬((c'.obj f.sid).maxBytes ≠ 0 ∧ (c'.obj f.sid).maxBytes < (c'.obj f.sid).nbytes) := by
    rw [hst]
    dsimp only
    omega
  rw [he]
  unfold settleData
  dsimp only
  rw [if_neg hcap']
  cases hend : f.endStream with
  | true => simp [finish, modify, hst]
  | false => simp [hst, hheard.2]

end Conn

end NeverFox.H2
