import NeverFox.H2.Settled
import NeverFox.H2.SendWindow

namespace NeverFox.H2

variable {ε δ : Type}

-- The frames that are whole within the first n octets.
def framesWithin : List Frame → Nat → List Frame
  | [], _ => []
  | f :: rest, n =>
      if f.encode.length ≤ n then f :: framesWithin rest (n - f.encode.length) else []

-- The frames of a write that went out whole.
def Write.out (w : Write) : List Frame := framesWithin w.frames w.bytes.length

-- What is seen of a connection from outside: a request takes an id, a frame of
-- the server is received, a frame is written.
inductive Mark
  | opened (sid : Nat)
  | heard (f : Frame)
  | out (f : Frame)
  deriving DecidableEq

namespace Mark

-- END_STREAM or RST_STREAM of the server, with or without a stream to it.
def ends (sid : Nat) : Mark → Bool
  | heard f => f.sid = sid && (f.ftype = .rst || ((f.ftype = .data || f.ftype = .headers) && f.endStream))
  | _ => false

-- RST_STREAM of the client.
def resets (sid : Nat) : Mark → Bool
  | out f => f.ftype = .rst && f.sid = sid
  | _ => false

def closes (sid : Nat) (m : Mark) : Bool := m.ends sid || m.resets sid

-- WINDOW_UPDATE of the client.
def credits (sid : Nat) : Mark → Bool
  | out f => f.ftype = .windowUpdate && f.sid = sid
  | _ => false

-- END_STREAM on a header block that does not end with its first frame.
def tears (sid : Nat) : Mark → Bool
  | heard f => f.sid = sid && f.ftype = .headers && f.endStream && !f.endHeaders
  | _ => false

end Mark

-- The frames written in a step.
def Conn.newOut (c c' : Conn ε δ) : List Frame := (c'.tp.log.drop c.tp.log.length).flatMap Write.out

-- What a step adds: a frame is received before anything is written in answer.
def newMarks (c : Conn ε δ) (e : Event) (c' : Conn ε δ) : List Mark :=
  (framesOf [e]).map .heard ++ (if c.nextId < c'.nextId then [.opened c.nextId] else []) ++
    (c.newOut c').map .out

def marking (marks : List Mark) (c : Conn ε δ) (e : Event) (c' : Conn ε δ) : List Mark :=
  marks ++ newMarks c e c'

-- No WINDOW_UPDATE for a stream behind what closes it.
def CreditsInTime (marks : List Mark) : Prop :=
  ∀ sid, sid ≠ 0 → marks.Pairwise fun earlier later => earlier.closes sid → later.credits sid = false

-- The server ended the stream before the client had opened it.
def endedEarly (sid : Nat) (marks : List Mark) : Bool :=
  (marks.takeWhile (· ≠ .opened sid)).any (Mark.ends sid)

-- Two WINDOW_UPDATE frames of 13 octets each go out before the write raises, if it does.
def creditGoes (c : Conn ε δ) : Prop := ∀ n ∈ c.tp.fate c.tp.log.length, 26 ≤ n

instance (c : Conn ε δ) : Decidable (creditGoes c) := inferInstanceAs (Decidable (∀ n ∈ _, 26 ≤ n))

-- DATA that the dispatch answers with credit for its stream.
def Credited (c : Conn ε δ) (f : Frame) : Prop :=
  f.ftype = .data ∧ f.payload ≠ [] ∧ f.endStream = false ∧ f.sid ∈ c.streams ∧
    (c.obj f.sid).done = false ∧ creditGoes c

instance (c : Conn ε δ) (f : Frame) : Decidable (Credited c f) :=
  inferInstanceAs (Decidable (_ ∧ _ ∧ _ ∧ _ ∧ _ ∧ _))

-- Its stream is still waited for although a RST_STREAM went out for it, the
-- header block that ends it is incomplete, or it had ended before it began.
def latecomer (marks : List Mark) (c : Conn ε δ) : Event → Prop
  | .frame f => Credited c f ∧
      (marks.any (Mark.resets f.sid) = true ∨ marks.any (Mark.tears f.sid) = true ∨
        endedEarly f.sid marks = true)
  | _ => False

instance (marks : List Mark) (c : Conn ε δ) (e : Event) : Decidable (latecomer marks c e) :=
  match e with
  | .frame f => decidable_of_iff (Credited c f ∧
      (marks.any (Mark.resets f.sid) || marks.any (Mark.tears f.sid) || endedEarly f.sid marks) = true)
      (by simp only [latecomer, Bool.or_eq_true, or_assoc])
  | .eof | .readTimeout | .acquire | .send _ | .rst _ | .pop _ | .close => .isFalse id

theorem framesWithin_subset (frames : List Frame) (n : Nat) : framesWithin frames n ⊆ frames := by
  induction frames generalizing n with
  | nil => exact List.Subset.refl _
  | cons f rest ih =>
      unfold framesWithin
      split
      · exact List.cons_subset_cons f (ih _)
      · exact List.nil_subset _

theorem out_subset (w : Write) : w.out ⊆ w.frames := framesWithin_subset _ _

namespace Conn

theorem newOut_of_log {c c' : Conn ε δ} {writes : List Write} (h : c'.tp.log = c.tp.log ++ writes) :
    c.newOut c' = writes.flatMap Write.out := by
  unfold newOut
  rw [h, List.drop_left]

theorem newOut_same {c c' : Conn ε δ} (h : c'.tp.log = c.tp.log) : c.newOut c' = [] := by
  have hlog : c'.tp.log = c.tp.log ++ [] := by rw [h, List.append_nil]
  rw [newOut_of_log hlog]
  rfl

-- Every frame in the new writes meets the condition.
def NewFrames (p : Frame → Prop) (c c' : Conn ε δ) : Prop :=
  ∃ writes : List Write, c'.tp.log = c.tp.log ++ writes ∧ ∀ w ∈ writes, ∀ f ∈ w.frames, p f

theorem NewFrames.out {p : Frame → Prop} {c c' : Conn ε δ} (h : NewFrames p c c') :
    ∀ f ∈ c.newOut c', p f := by
  obtain ⟨writes, hlog, hall⟩ := h
  rw [newOut_of_log hlog]
  intro f hf
  obtain ⟨w, hw, hfw⟩ := List.mem_flatMap.mp hf
  exact hall w hw f (out_subset w hfw)

theorem NewFrames.of_log {p : Frame → Prop} {c c' : Conn ε δ} (h : c'.tp.log = c.tp.log) :
    NewFrames p c c' := ⟨[], by rw [h, List.append_nil], by simp⟩

theorem NewFrames.trans {p : Frame → Prop} {a b c : Conn ε δ} (h : NewFrames p a b)
    (h' : NewFrames p b c) : NewFrames p a c := log_append h h'

-- The reader writes no WINDOW_UPDATE but in answer to DATA.
theorem newFrames_micros {kind : FrameType} (hk : kind ≠ .data) {c c' : Conn ε δ}
    (h : Micros kind c c') : NewFrames (fun f => f.ftype ≠ .windowUpdate) c c' := by
  refine h.lift (r := NewFrames fun f => f.ftype ≠ .windowUpdate) (fun c => .of_log rfl)
    (fun _ _ _ => NewFrames.trans) ?_
  intro c c' hm
  cases hm with
  | chunk _ hk' => exact absurd hk' hk
  | credit _ hk' => exact absurd hk' hk
  | control f hf =>
      refine ⟨[⟨[f], c.tp.fate c.tp.log.length⟩], rfl, ?_⟩
      simp only [List.mem_singleton, forall_eq]
      rcases hf with hf | hf | hf <;> simp [hf]
  | _ => exact .of_log rfl

theorem newFrames_sendRst (c : Conn ε δ) (sid : Nat) :
    NewFrames (fun f => f.ftype = .rst) c (c.sendRst sid) := by
  rcases c.sendRst_eq sid with h | h <;> rw [h]
  · exact .of_log rfl
  · exact ⟨[⟨[rstStream sid E_CANCEL], c.tp.fate c.tp.log.length⟩], rfl, by simp [rstStream]⟩

theorem newFrames_settleData (c : Conn ε δ) (f : Frame) :
    NewFrames (fun f => f.ftype = .rst) c (c.settleData f) := by
  unfold settleData
  dsimp only
  split
  · exact newFrames_sendRst c f.sid
  · split
    · exact .of_log rfl
    · exact .of_log rfl

theorem newFrames_send (hp : Hpack ε δ) (c : Conn ε δ) (args : SendArgs) :
    NewFrames (fun f => f.ftype ≠ .windowUpdate ∧ f.ftype ≠ .rst) c (c.send hp args).1 := by
  refine ⟨(c.upload hp args).toList, c.log_send hp args, ?_⟩
  intro w hw f hf
  obtain ⟨block, data, _, hframes⟩ := upload_eq_some (Option.mem_toList.mp hw)
  rw [hframes] at hf
  rcases List.mem_cons.mp hf with rfl | hf
  · simp
  · simp [dataFrames_ftype _ _ _ hf]

-- Of DATA that is heard the credit goes out first, and then nothing but RST_STREAM.
theorem newOut_data {c : Conn ε δ} {f : Frame} (ht : f.ftype = .data)
    (hheard : f.sid ∈ c.streams ∧ (c.obj f.sid).done = false) (hp : f.payload ≠ []) (hpk : Hpack ε δ) :
    ∃ resets, c.newOut (c.dispatch hpk f).1 =
        Write.out ⟨dataCredit f, c.tp.fate c.tp.log.length⟩ ++ resets ∧ ∀ g ∈ resets, g.ftype = .rst := by
  have hd : c.dispatch hpk f = c.onData f := by unfold dispatch; rw [ht]
  rw [hd]
  rcases c.onData_cases f with ⟨hno, _⟩ | ⟨_, ⟨hnil, _⟩ | ⟨_, _, he⟩ | ⟨exc, he⟩⟩
  · exact absurd hheard hno
  · exact absurd hnil hp
  · obtain ⟨writes, hlog, hall⟩ := newFrames_settleData ((c.addChunk f).write (dataCredit f)).1 f
    refine ⟨writes.flatMap Write.out, ?_, ?_⟩
    · have hwrites : (((c.addChunk f).write (dataCredit f)).1.settleData f).tp.log =
          c.tp.log ++ ⟨dataCredit f, c.tp.fate c.tp.log.length⟩ :: writes := by
        rw [hlog]
        simp [write, addChunk, modify]
      rw [he, newOut_of_log hwrites]
      rfl
    · intro g hg
      obtain ⟨w, hw, hgw⟩ := List.mem_flatMap.mp hg
      exact hall w hw g (out_subset w hgw)
  · refine ⟨[], ?_, by simp⟩
    have hwrites : ((c.addChunk f).write (dataCredit f)).1.tp.log =
        c.tp.log ++ [⟨dataCredit f, c.tp.fate c.tp.log.length⟩] := rfl
    rw [he, newOut_of_log hwrites]
    simp

end Conn

theorem length_encode_windowUpdate (sid increment : Nat) : (windowUpdate sid increment).encode.length = 13 := by
  rw [length_encode]
  rfl

-- What of the credit goes out.
theorem mem_out_dataCredit {f : Frame} {cut : Option Nat} {sid : Nat} (hsid : sid ≠ 0) :
    (∃ g ∈ Write.out ⟨Conn.dataCredit f, cut⟩, g.ftype = .windowUpdate ∧ g.sid = sid) ↔
      sid = f.sid ∧ f.endStream = false ∧ ∀ n ∈ cut, 26 ≤ n := by
  have hzero : ∀ n increment, (∃ g ∈ framesWithin [windowUpdate 0 increment] n,
      g.ftype = .windowUpdate ∧ g.sid = sid) ↔ False := by
    intro n increment
    refine ⟨?_, False.elim⟩
    rintro ⟨g, hg, _, hs⟩
    obtain rfl := List.mem_singleton.mp (framesWithin_subset _ _ hg)
    exact hsid hs.symm
  unfold Write.out Conn.dataCredit
  cases hend : f.endStream with
  | true => simp [hzero]
  | false =>
      have hlen : ([windowUpdate 0 f.payload.length, windowUpdate f.sid f.payload.length].flatMap
          Frame.encode).length = 26 := by
        simp [length_encode_windowUpdate]
      have hbytes : (Write.bytes ⟨[windowUpdate 0 f.payload.length, windowUpdate f.sid f.payload.length],
          cut⟩).length = min (cut.getD 26) 26 := by
        unfold Write.bytes
        cases cut with
        | none => simp only [hlen, Option.getD_none, Nat.min_self]
        | some n => simp only [List.length_take, hlen, Option.getD_some]
      simp only [Bool.false_eq_true, ↓reduceIte, hbytes, framesWithin, length_encode_windowUpdate]
      cases cut with
      | none => simp [windowUpdate, hsid, eq_comm]
      | some n =>
          by_cases hn : 26 ≤ n
          · simp [hn, windowUpdate, hsid, eq_comm]
          · have hshort : ¬13 ≤ min n 26 - 13 := by omega
            simp [hn, hshort]
            intro _ _ hs
            exact hsid hs.symm

-- A frame is answered with credit for a stream exactly when it is DATA that is heard.
theorem credited_dispatch_iff (hp : Hpack ε δ) {c : Conn ε δ} (f : Frame) {sid : Nat} (hsid : sid ≠ 0) :
    (∃ g ∈ c.newOut (c.dispatch hp f).1, g.ftype = .windowUpdate ∧ g.sid = sid) ↔
      Credited c f ∧ f.sid = sid := by
  by_cases hdata : f.ftype = .data ∧ f.payload ≠ [] ∧ f.sid ∈ c.streams ∧ (c.obj f.sid).done = false
  · obtain ⟨ht, hpay, hin, hd⟩ := hdata
    obtain ⟨resets, hout, hrst⟩ := Conn.newOut_data ht ⟨hin, hd⟩ hpay hp
    have hsplit : (∃ g ∈ c.newOut (c.dispatch hp f).1, g.ftype = .windowUpdate ∧ g.sid = sid) ↔
        ∃ g ∈ Write.out ⟨Conn.dataCredit f, c.tp.fate c.tp.log.length⟩,
          g.ftype = .windowUpdate ∧ g.sid = sid := by
      rw [hout]
      constructor
      · rintro ⟨g, hg, hw, hs⟩
        rcases List.mem_append.mp hg with hg | hg
        · exact ⟨g, hg, hw, hs⟩
        · rw [hrst g hg] at hw
          cases hw
      · rintro ⟨g, hg, hw⟩
        exact ⟨g, List.mem_append_left _ hg, hw⟩
    rw [hsplit, mem_out_dataCredit hsid]
    constructor
    · rintro ⟨hs, hend, hgoes⟩
      exact ⟨⟨ht, hpay, hend, hin, hd, hgoes⟩, hs.symm⟩
    · rintro ⟨⟨_, _, hend, _, _, hgoes⟩, hs⟩
      exact ⟨hs.symm, hend, hgoes⟩
  · refine iff_of_false ?_ ?_
    · rintro ⟨g, hg, hw, _⟩
      by_cases ht : f.ftype = .data
      · have hd : c.dispatch hp f = c.onData f := by unfold Conn.dispatch; rw [ht]
        rw [hd] at hg
        rcases c.onData_cases f with ⟨_, he⟩ | ⟨hheard, ⟨_, he⟩ | ⟨hpay, _⟩ | ⟨exc, he⟩⟩
        · rw [he, Conn.newOut_same rfl] at hg
          exact absurd hg List.not_mem_nil
        · have hout : c.newOut (c.onData f).1 =
              (c.addChunk f).newOut ((c.addChunk f).settleData f) := by
            rw [he]
            rfl
          rw [hout] at hg
          have hrst := (Conn.newFrames_settleData (c.addChunk f) f).out g hg
          rw [hw] at hrst
          cases hrst
        · exact hdata ⟨ht, hpay, hheard⟩
        · refine hdata ⟨ht, ?_, hheard⟩
          intro hnil
          simp [Conn.onData, hheard, hnil] at he
      · exact (Conn.newFrames_micros ht (Conn.Micros.dispatch hp c f)).out g hg hw
    · rintro ⟨⟨ht, hpay, _, hin, hd, _⟩, _⟩
      exact hdata ⟨ht, hpay, hin, hd⟩

theorem newOut_exitReader (c b : Conn ε δ) (exc : Exn) : c.newOut (b.exitReader exc) = c.newOut b := by
  have hlog : (b.exitReader exc).tp.log = b.tp.log := by
    simp only [Conn.exitReader, Conn.failAll, Conn.failItems_eq]
  unfold Conn.newOut
  rw [hlog]

-- Nothing else writes a WINDOW_UPDATE.
theorem credited_step_iff {hp : Hpack ε δ} {c c' : Conn ε δ} {e : Event} (hs : step hp c e = some c')
    {sid : Nat} (hsid : sid ≠ 0) :
    (∃ g ∈ c.newOut c', g.ftype = .windowUpdate ∧ g.sid = sid) ↔
      ∃ f, e = .frame f ∧ Credited c f ∧ f.sid = sid := by
  have hnone : c.newOut c' = [] → (∀ f, e ≠ .frame f) →
      ((∃ g ∈ c.newOut c', g.ftype = .windowUpdate ∧ g.sid = sid) ↔
        ∃ f, e = .frame f ∧ Credited c f ∧ f.sid = sid) := by
    intro hout hno
    rw [hout]
    refine iff_of_false ?_ ?_
    · rintro ⟨g, hg, _⟩
      cases hg
    · rintro ⟨f, he, _⟩
      exact hno f he
  cases step_happens hs with
  | frame f => simp [credited_dispatch_iff hp f hsid]
  | raised f exc => simp [newOut_exitReader, credited_dispatch_iff hp f hsid]
  | eof | stopped => exact hnone ((newOut_exitReader c c _).trans (Conn.newOut_same rfl)) (by simp)
  | idle | acquire | refused | pop => exact hnone (Conn.newOut_same rfl) (by simp)
  | send args =>
      refine iff_of_false ?_ (by simp)
      rintro ⟨g, hg, hw, _⟩
      exact ((Conn.newFrames_send hp c args).out g hg).1 hw
  | rst other =>
      refine iff_of_false ?_ (by simp)
      rintro ⟨g, hg, hw, _⟩
      have hrst := (Conn.newFrames_sendRst c other).out g hg
      rw [hw] at hrst
      cases hrst
  | close => exact hnone (Conn.newOut_same c.log_close) (by simp)

theorem exitReader_done {c : Conn ε δ} {sid : Nat} (hin : sid ∈ c.streams) (exc : Exn) :
    ((c.exitReader exc).obj sid).done = true := by
  simp only [Conn.exitReader, Conn.failAll, Conn.failItems_eq, true_and]
  split
  · rfl
  · rename_i hno
    by_contra hd
    exact hno ⟨hin, by simpa using hd⟩

theorem settleData_ended {c : Conn ε δ} {f : Frame} (hend : f.endStream = true) :
    ((c.settleData f).obj f.sid).done = true := by
  unfold Conn.settleData
  dsimp only
  rw [if_pos hend]
  split
  · simp [Conn.fail, Conn.modify]
  · simp [Conn.finish, Conn.modify]

-- What ends a stream that is waited for is seen, unless its header block goes on.
theorem done_of_ends {hp : Hpack ε δ} {c c' : Conn ε δ} {f : Frame} {sid : Nat}
    (hs : step hp c (.frame f) = some c') (hin : sid ∈ c.streams) (hopen : (c.obj sid).done = false)
    (hends : (Mark.heard f).ends sid = true) (htears : (Mark.heard f).tears sid = false) :
    (c'.obj sid).done = true := by
  simp only [Mark.ends, Bool.and_eq_true, Bool.or_eq_true, decide_eq_true_eq] at hends
  obtain ⟨rfl, hends⟩ := hends
  cases step_happens hs with
  | raised _ exc =>
      exact exitReader_done ((Conn.kept_dispatch hp c f).streams ▸ hin) exc
  | frame _ _ _ hn =>
      rcases hends with hrst | ⟨hdata | hheaders, hend⟩
      · simp [Conn.dispatch, hrst, Conn.onRst, hin, hopen, Conn.fail, Conn.modify]
      · have hd : c.dispatch hp f = c.onData f := by unfold Conn.dispatch; rw [hdata]
        rw [hd] at hn ⊢
        rcases c.onData_cases f with ⟨hno, _⟩ | ⟨_, ⟨_, he⟩ | ⟨_, _, he⟩ | ⟨exc, he⟩⟩
        · exact absurd ⟨hin, hopen⟩ hno
        · rw [he]
          exact settleData_ended hend
        · rw [he]
          exact settleData_ended hend
        · rw [he] at hn
          cases hn
      · have hcomplete : f.endHeaders = true := by
          by_contra hno
          simp [Mark.tears, hheaders, hend, hno] at htears
        have hd : c.dispatch hp f =
            Conn.finishHeaders hp { c with hsid := some f.sid, hbuf := f.payload, hend := f.endStream } := by
          simp [Conn.dispatch, hheaders, Conn.onHeaders, hcomplete]
        rw [hd] at hn ⊢
        have hself := Conn.finishHeaders_self hp
          (c := { c with hsid := some f.sid, hbuf := f.payload, hend := f.endStream }) rfl hin hn
        rw [hself.2, hend, Bool.or_true]

-- What goes for every stream along a run with its marks.
structure Watched (c : Conn ε δ) (marks : List Mark) : Prop where
  next : 0 < c.nextId
  nonzero : ∀ sid ∈ c.streams, sid ≠ 0
  below : ∀ sid, Mark.opened sid ∈ marks → sid < c.nextId
  opened : ∀ sid ∈ c.streams, Mark.opened sid ∈ marks
  ended : ∀ sid ∈ c.streams, (c.obj sid).done = false → marks.any (Mark.ends sid) = true →
    marks.any (Mark.tears sid) = true ∨ endedEarly sid marks = true

theorem endedEarly_append {sid : Nat} {marks : List Mark} (h : endedEarly sid marks = true)
    (later : List Mark) : endedEarly sid (marks ++ later) = true := by
  unfold endedEarly at h ⊢
  rw [List.takeWhile_append]
  split
  · rename_i hlen
    have hself : marks.takeWhile (· ≠ .opened sid) = marks :=
      (List.takeWhile_prefix _).eq_of_length hlen
    rw [hself] at h
    rw [List.any_append, h, Bool.true_or]
  · exact h

theorem endedEarly_of_unopened {sid : Nat} {marks : List Mark} (hno : Mark.opened sid ∉ marks)
    (h : marks.any (Mark.ends sid) = true) (later : List Mark) :
    endedEarly sid (marks ++ later) = true := by
  apply endedEarly_append
  unfold endedEarly
  rwa [List.takeWhile_eq_self_iff.mpr]
  intro m hm
  simp only [ne_eq, decide_not, Bool.not_eq_true', decide_eq_false_iff_not]
  rintro rfl
  exact hno hm

theorem Watched.init (hp : Hpack ε δ) (fate : Nat → Option Nat) : Watched (.init hp fate) [] where
  next := Nat.one_pos
  nonzero := by simp [Conn.init]
  below := by simp
  opened := by simp [Conn.init]
  ended := by simp

-- A stream that still waits after a step has waited before it, or is new.
theorem waits_step {hp : Hpack ε δ} {c c' : Conn ε δ} {e : Event} {sid : Nat} (hold : sid < c.nextId)
    (hs : step hp c e = some c') (hopen : (c'.obj sid).done = false) : (c.obj sid).done = false := by
  by_contra hd
  have hd' : (c.obj sid).done = true := by simpa using hd
  have hobj := Conn.step_done hold hd' hs
  cases hstored : c.storedOn hp sid e with
  | none =>
      simp only [hstored] at hobj
      rw [hobj, hd'] at hopen
      cases hopen
  | some fields =>
      simp only [hstored] at hobj
      rw [hobj] at hopen
      simp only [Conn.storeFields_fst, hd'] at hopen
      cases hopen

theorem streams_step {hp : Hpack ε δ} {c c' : Conn ε δ} {e : Event} (hs : step hp c e = some c')
    {sid : Nat} (hin : sid ∈ c'.streams) :
    sid ∈ c.streams ∨ sid = c.nextId ∧ c'.nextId = c.nextId + 2 ∧ framesOf [e] = [] := by
  cases step_happens hs with
  | frame f => exact .inl ((Conn.kept_dispatch hp c f).streams ▸ hin)
  | raised f exc =>
      left
      rw [(Conn.stable_exitReader _ exc).streams, (Conn.kept_dispatch hp c f).streams] at hin
      exact hin
  | eof | stopped => exact .inl ((Conn.stable_exitReader c _).streams ▸ hin)
  | idle | acquire | refused => exact .inl hin
  | send args =>
      rcases c.send_cases hp args with ⟨_, _, hstreams, _⟩ | ⟨_, hnext, _, hstreams, _⟩
      · exact .inl (hstreams ▸ hin)
      · rw [hstreams, Conn.mem_register] at hin
        rcases hin with hin | rfl
        · exact .inl hin
        · exact .inr ⟨rfl, hnext, rfl⟩
  | rst other => exact .inl ((Conn.kept_sendRst c other).streams ▸ hin)
  | pop other => exact .inl (List.erase_subset hin)
  | close => exact .inl (c.stable_close.streams ▸ hin)

theorem opened_newMarks {c c' : Conn ε δ} {e : Event} {sid : Nat} :
    Mark.opened sid ∈ newMarks c e c' ↔ sid = c.nextId ∧ c.nextId < c'.nextId := by
  unfold newMarks
  by_cases hnext : c.nextId < c'.nextId
  · simp [hnext]
  · simp [hnext]

theorem ends_newMarks {c c' : Conn ε δ} {e : Event} {sid : Nat}
    (h : (newMarks c e c').any (Mark.ends sid) = true) : ∃ f, e = .frame f ∧ (Mark.heard f).ends sid = true := by
  obtain ⟨m, hm, hends⟩ := List.any_eq_true.mp h
  unfold newMarks at hm
  rcases List.mem_append.mp hm with hm | hm
  · rcases List.mem_append.mp hm with hm | hm
    · cases e with
      | frame f =>
          obtain rfl := List.mem_singleton.mp hm
          exact ⟨f, rfl, hends⟩
      | _ => cases hm
    · split at hm
      · obtain rfl := List.mem_singleton.mp hm
        cases hends
      · cases hm
  · obtain ⟨g, _, rfl⟩ := List.mem_map.mp hm
    cases hends

theorem Watched.step {hp : Hpack ε δ} {c c' : Conn ε δ} {marks : List Mark} {e : Event}
    (h : Watched c marks) (hs : step hp c e = some c') : Watched c' (marking marks c e c') := by
  have hgrow : c.nextId ≤ c'.nextId := by
    rcases nextId_step hs with hn | ⟨hn, _⟩ <;> omega
  refine ⟨Nat.lt_of_lt_of_le h.next hgrow, ?_, ?_, ?_, ?_⟩
  · intro sid hin
    rcases streams_step hs hin with hin | ⟨rfl, _, _⟩
    · exact h.nonzero sid hin
    · exact Nat.ne_of_gt h.next
  · intro sid hm
    rcases List.mem_append.mp hm with hm | hm
    · exact Nat.lt_of_lt_of_le (h.below sid hm) hgrow
    · obtain ⟨rfl, hlt⟩ := opened_newMarks.mp hm
      exact hlt
  · intro sid hin
    rcases streams_step hs hin with hin | ⟨rfl, hn, _⟩
    · exact List.mem_append_left _ (h.opened sid hin)
    · exact List.mem_append_right _ (opened_newMarks.mpr ⟨rfl, by omega⟩)
  · intro sid hin hopen hends
    unfold marking at hends ⊢
    rw [List.any_append, Bool.or_eq_true] at hends ⊢
    rcases streams_step hs hin with hin' | ⟨rfl, _, hnoframe⟩
    · have hopen' := waits_step (h.below sid (h.opened sid hin')) hs hopen
      rcases hends with hends | hends
      · rcases h.ended sid hin' hopen' hends with htears | hearly
        · exact .inl (.inl htears)
        · exact .inr (endedEarly_append hearly _)
      · obtain ⟨f, rfl, hclose⟩ := ends_newMarks hends
        cases htears : (Mark.heard f).tears sid with
        | true =>
            left
            right
            exact List.any_eq_true.mpr ⟨.heard f, by simp [newMarks, framesOf], htears⟩
        | false =>
            rw [done_of_ends hs hin' hopen' hclose htears] at hopen
            cases hopen
    · right
      rcases hends with hends | hends
      · apply endedEarly_of_unopened _ hends
        intro hm
        exact absurd (h.below _ hm) (Nat.lt_irrefl _)
      · obtain ⟨f, rfl, _⟩ := ends_newMarks hends
        cases hnoframe

-- The frames of one step are in the right order among themselves.
theorem inTime_newMarks {hp : Hpack ε δ} {c c' : Conn ε δ} {e : Event} (hs : step hp c e = some c') :
    CreditsInTime (newMarks c e c') := by
  intro sid hsid
  by_cases hcredit : ∃ g ∈ c.newOut c', g.ftype = .windowUpdate ∧ g.sid = sid
  · obtain ⟨f, rfl, hf, rfl⟩ := (credited_step_iff hs hsid).mp hcredit
    obtain ⟨ht, hpay, hend, hin, hd, _⟩ := hf
    obtain ⟨resets, hout, hrst⟩ := Conn.newOut_data ht ⟨hin, hd⟩ hpay hp
    have hnew : c.newOut c' = Write.out ⟨Conn.dataCredit f, c.tp.fate c.tp.log.length⟩ ++ resets := by
      rw [← hout]
      cases step_happens hs with
      | frame => rfl
      | raised _ exc => exact newOut_exitReader c _ exc
    have hnext : c'.nextId = c.nextId := by
      rcases nextId_step hs with hn | ⟨_, args, he, _⟩
      · exact hn
      · cases he
    have hfirst : ∀ g ∈ Write.out ⟨Conn.dataCredit f, c.tp.fate c.tp.log.length⟩,
        g.ftype = .windowUpdate := by
      intro g hg
      have hmem := out_subset _ hg
      simp only [Conn.dataCredit, hend, Bool.false_eq_true, ↓reduceIte, List.mem_cons, List.not_mem_nil,
        or_false] at hmem
      rcases hmem with rfl | rfl <;> rfl
    unfold newMarks
    rw [hnext, if_neg (Nat.lt_irrefl _), List.append_nil, hnew, List.map_append]
    rw [List.pairwise_append, List.pairwise_append]
    refine ⟨by simp [framesOf], ⟨?_, ?_, ?_⟩, ?_⟩
    · apply List.pairwise_of_forall_mem_list
      intro a ha b _ hclose
      obtain ⟨g, hg, rfl⟩ := List.mem_map.mp ha
      simp [Mark.closes, Mark.ends, Mark.resets, hfirst g hg] at hclose
    · apply List.pairwise_of_forall_mem_list
      intro a _ b hb _
      obtain ⟨g, hg, rfl⟩ := List.mem_map.mp hb
      simp [Mark.credits, hrst g hg]
    · intro a _ b hb _
      obtain ⟨g, hg, rfl⟩ := List.mem_map.mp hb
      simp [Mark.credits, hrst g hg]
    · intro a ha b _ hclose
      obtain rfl := List.mem_singleton.mp ha
      simp [Mark.closes, Mark.ends, Mark.resets, ht, hend] at hclose
  · apply List.pairwise_of_forall_mem_list
    intro a _ b hb _
    by_contra hcred
    apply hcredit
    unfold newMarks at hb
    rcases List.mem_append.mp hb with hb | hb
    · rcases List.mem_append.mp hb with hb | hb
      · obtain ⟨g, _, rfl⟩ := List.mem_map.mp hb
        exact absurd rfl hcred
      · split at hb
        · obtain rfl := List.mem_singleton.mp hb
          exact absurd rfl hcred
        · cases hb
    · obtain ⟨g, hg, rfl⟩ := List.mem_map.mp hb
      exact ⟨g, hg, by simpa [Mark.credits] using hcred⟩

theorem inTime_append {marks later : List Mark} :
    CreditsInTime (marks ++ later) ↔ CreditsInTime marks ∧ CreditsInTime later ∧
      ∀ sid, sid ≠ 0 → marks.any (Mark.closes sid) = true → later.any (Mark.credits sid) = false := by
  unfold CreditsInTime
  simp only [List.pairwise_append, ← forall_and]
  apply forall_congr'
  intro sid
  simp only [List.any_eq_true, List.any_eq_false, Bool.not_eq_true]
  apply imp_congr_right
  intro _
  have hcross : (∀ a ∈ marks, ∀ b ∈ later, a.closes sid = true → b.credits sid = false) ↔
      ((∃ a ∈ marks, a.closes sid = true) → ∀ b ∈ later, b.credits sid = false) := by
    constructor
    · rintro h ⟨a, ha, hclose⟩ b hb
      exact h a ha b hb hclose
    · intro h a ha b hb hclose
      exact h ⟨a, ha, hclose⟩ b hb
  rw [hcross]

theorem credits_newMarks {hp : Hpack ε δ} {c c' : Conn ε δ} {e : Event} (hs : step hp c e = some c')
    {sid : Nat} (hsid : sid ≠ 0) :
    (newMarks c e c').any (Mark.credits sid) = true ↔
      ∃ f, e = .frame f ∧ Credited c f ∧ f.sid = sid := by
  rw [← credited_step_iff hs hsid, List.any_eq_true]
  unfold newMarks
  constructor
  · rintro ⟨m, hm, hcredit⟩
    rcases List.mem_append.mp hm with hm | hm
    · rcases List.mem_append.mp hm with hm | hm
      · obtain ⟨g, _, rfl⟩ := List.mem_map.mp hm
        cases hcredit
      · split at hm
        · obtain rfl := List.mem_singleton.mp hm
          cases hcredit
        · cases hm
    · obtain ⟨g, hg, rfl⟩ := List.mem_map.mp hm
      exact ⟨g, hg, by simpa [Mark.credits] using hcredit⟩
  · rintro ⟨g, hg, ht, hs⟩
    exact ⟨.out g, by simp [hg], by simp [Mark.credits, ht, hs]⟩

theorem any_closes (sid : Nat) (marks : List Mark) :
    marks.any (Mark.closes sid) = true ↔
      marks.any (Mark.ends sid) = true ∨ marks.any (Mark.resets sid) = true := by
  simp only [List.any_eq_true, Mark.closes, Bool.or_eq_true]
  constructor
  · rintro ⟨m, hm, hends | hresets⟩
    · exact .inl ⟨m, hm, hends⟩
    · exact .inr ⟨m, hm, hresets⟩
  · rintro (⟨m, hm, hends⟩ | ⟨m, hm, hresets⟩)
    · exact ⟨m, hm, .inl hends⟩
    · exact ⟨m, hm, .inr hresets⟩

theorem ends_of_tears {sid : Nat} {marks : List Mark} (h : marks.any (Mark.tears sid) = true) :
    marks.any (Mark.ends sid) = true := by
  obtain ⟨m, hm, htears⟩ := List.any_eq_true.mp h
  refine List.any_eq_true.mpr ⟨m, hm, ?_⟩
  cases m with
  | heard f =>
      simp only [Mark.tears, Bool.and_eq_true, decide_eq_true_eq] at htears
      simp [Mark.ends, htears.1.1.1, htears.1.1.2, htears.1.2]
  | _ => cases htears

theorem ends_of_endedEarly {sid : Nat} {marks : List Mark} (h : endedEarly sid marks = true) :
    marks.any (Mark.ends sid) = true := by
  obtain ⟨m, hm, hends⟩ := List.any_eq_true.mp h
  exact List.any_eq_true.mpr ⟨m, (List.takeWhile_prefix _).subset hm, hends⟩

-- Credit for a stream that is waited for is late exactly in these three ways.
theorem latecomer_iff {c : Conn ε δ} {marks : List Mark} (h : Watched c marks) {f : Frame}
    (hf : Credited c f) :
    marks.any (Mark.closes f.sid) = true ↔
      marks.any (Mark.resets f.sid) = true ∨ marks.any (Mark.tears f.sid) = true ∨
        endedEarly f.sid marks = true := by
  rw [any_closes]
  constructor
  · rintro (hends | hresets)
    · exact .inr (h.ended f.sid hf.2.2.2.1 hf.2.2.2.2.1 hends)
    · exact .inl hresets
  · rintro (hresets | htears | hearly)
    · exact .inr hresets
    · exact .inl (ends_of_tears htears)
    · exact .inl (ends_of_endedEarly hearly)

theorem inTime_step {hp : Hpack ε δ} {c c' : Conn ε δ} {marks : List Mark} {e : Event}
    (h : Watched c marks) (hs : step hp c e = some c') :
    CreditsInTime (marking marks c e c') ↔ CreditsInTime marks ∧ ¬latecomer marks c e := by
  unfold marking
  rw [inTime_append]
  constructor
  · rintro ⟨hintime, _, hcross⟩
    refine ⟨hintime, ?_⟩
    intro hlate
    cases e with
    | frame f =>
        obtain ⟨hf, hwhy⟩ := hlate
        have hsid := h.nonzero f.sid hf.2.2.2.1
        have hnone := hcross f.sid hsid ((latecomer_iff h hf).mpr hwhy)
        rw [(credits_newMarks hs hsid).mpr ⟨f, rfl, hf, rfl⟩] at hnone
        cases hnone
    | _ => exact hlate
  · rintro ⟨hintime, hno⟩
    refine ⟨hintime, inTime_newMarks hs, ?_⟩
    intro sid hsid hclosed
    by_contra hcredit
    obtain ⟨f, rfl, hf, rfl⟩ := (credits_newMarks hs hsid).mp (by simpa using hcredit)
    exact hno ⟨hf, (latecomer_iff h hf).mp hclosed⟩

-- Along a run no WINDOW_UPDATE goes out for a stream behind what closed it
-- exactly when no DATA that is credited comes late.
theorem credits_in_time_iff (hp : Hpack ε δ) (fate : Nat → Option Nat) (events : List Event) (c : Conn ε δ)
    (hrun : Transition.run (step hp) (.init hp fate) events = some c) :
    ∃ marks, Transition.run (Transition.noting (step hp) marking) (.init hp fate, []) events =
        some (c, marks) ∧
      (CreditsInTime marks ↔ Transition.Meets (Transition.noting (step hp) marking)
        (fun s e => ¬latecomer s.2 s.1 e) (.init hp fate, []) events) := by
  obtain ⟨marks, hmarks⟩ := Transition.exists_noting marking hrun []
  refine ⟨marks, hmarks, ?_⟩
  have hempty : CreditsInTime [] := fun _ _ => List.Pairwise.nil
  refine (Transition.end_iff (fun s => Watched s.1 s.2) (fun s => CreditsInTime s.2) ?_
    (Watched.init hp fate) hmarks).trans (and_iff_right hempty)
  rintro ⟨s, t⟩ e ⟨s', t'⟩ hwatched hnext
  obtain ⟨hs, rfl⟩ := Transition.noting_eq_some hnext
  exact ⟨hwatched.step hs, inTime_step hwatched hs⟩

-- DATA, then END_STREAM, then a frame too many, while the caller has yet to look.
def lateData : List Event :=
  [.send getRequest, .frame ⟨.data, 0, 1, [1, 2]⟩, .frame ⟨.data, F_END_STREAM, 1, [3]⟩,
    .frame ⟨.data, 0, 1, [4]⟩, .pop 1]

theorem credits_in_time_lateData :
    ∃ c marks, Transition.run (Transition.noting (step recorder) marking)
      (.init recorder fun _ => none, []) lateData = some (c, marks) ∧ CreditsInTime marks := by
  obtain ⟨marks, hmarks, hiff⟩ := credits_in_time_iff recorder (fun _ => none) lateData _ rfl
  exact ⟨_, marks, hmarks, hiff.mpr (by decide)⟩

-- A timed-out caller has written RST_STREAM and not yet removed the stream.
theorem credit_after_reset :
    ∃ c marks, Transition.run (Transition.noting (step recorder) marking)
        (.init recorder fun _ => none, [])
        [.send getRequest, .rst 1, .frame ⟨.data, 0, 1, [1]⟩] = some (c, marks) ∧
      ¬CreditsInTime marks := by
  refine ⟨_, _, rfl, ?_⟩
  intro h
  have hpair := h 1 (by decide)
  exact absurd hpair (by decide)

end NeverFox.H2
