import NeverFox.H2.Request
import NeverFox.H2.Responses
import NeverFox.H2.SendFailure

namespace NeverFox.H2

variable {ε δ : Type}

-- What a SETTINGS payload leaves behind its six-octet entries is read as one
-- more entry: a single octet is too short for its id, and a value that is cut
-- short matters only if the id is that of MAX_CONCURRENT_STREAMS.
def settingsTorn (payload : Bytes) : Bool :=
  match payload.drop (payload.length / 6 * 6) with
  | [] => false
  | [_] => true
  | hi :: lo :: _ => hi.toNat * 256 + lo.toNat = 3

-- A header block that the decoder rejects, or a :status that int() does.
def unreadable : Except Exn (List Header) → Bool
  | .error exc => !exc.isIOError
  | .ok fields => !numericStatus fields

-- A frame on which the reader raises what is no connection error.
def garbled (hp : Hpack ε δ) (c : Conn ε δ) (f : Frame) : Bool :=
  match f.ftype with
  | .settings => !f.has F_ACK && settingsTorn f.payload
  | .headers => f.endHeaders && f.sid ∈ c.streams && unreadable (hp.decode c.dec f.payload).2
  | .continuation =>
      f.endHeaders && c.hsid.any (· ∈ c.streams) && unreadable (hp.decode c.dec (c.hbuf ++ f.payload)).2
  | _ => false

-- Such a frame while the stream waits for its response.
def spoils (hp : Hpack ε δ) (sid : Nat) (c : Conn ε δ) : Event → Bool
  | .frame f =>
      c.reading && decide f.onWire && sid ∈ c.streams && !(c.obj sid).done && garbled hp c f
  | _ => false

def spoilt (hp : Hpack ε δ) (sid : Nat) : Conn ε δ → List Event → Bool
  | _, [] => false
  | c, e :: rest => spoils hp sid c e || spoilt hp sid ((step hp c e).getD c) rest

-- A request that raises before it is written, and not over the connection: a
-- header name without lower(), a list that the encoder rejects, a block too
-- long for a frame, a body that is not octets.
def unsendable (hp : Hpack ε δ) (c : Conn ε δ) (args : SendArgs) : Bool :=
  !c.closed && match args.fields with
    | none => true
    | some fields =>
        match (hp.encode c.enc fields).2, args.body with
        | .error exc, _ => !exc.isIOError
        | .ok block, .bytes _ => !(headersFrame c.nextId block (!args.body.truthy)).packs
        | .ok _, .other _ => true

-- A request that goes out whole.
def written (hp : Hpack ε δ) (c : Conn ε δ) (args : SendArgs) : Bool :=
  !c.closed && args.fields.any (emits hp c args)

theorem settingsTorn_cons (hi lo a b c d : UInt8) (rest : Bytes) :
    settingsTorn (hi :: lo :: a :: b :: c :: d :: rest) = settingsTorn rest := by
  have hlen : (hi :: lo :: a :: b :: c :: d :: rest).length / 6 * 6 = rest.length / 6 * 6 + 6 := by
    simp only [List.length_cons]
    omega
  unfold settingsTorn
  rw [hlen]
  rfl

theorem readSettings_raises (payload : Bytes) (limit : Nat) :
    ((Conn.readSettings payload limit).2.isSome ↔ settingsTorn payload = true) ∧
      ∀ exc, (Conn.readSettings payload limit).2 = some exc → exc.isIOError = false := by
  fun_induction Conn.readSettings payload limit with
  | case1 hi lo a b c d rest limit ih =>
      rw [settingsTorn_cons]
      exact ih
  | case2 hi lo rest limit hno =>
      have hshort : (hi :: lo :: rest).length / 6 * 6 = 0 := by
        rcases rest with _ | ⟨a, _ | ⟨b, _ | ⟨c, _ | ⟨d, rest⟩⟩⟩⟩
        case cons.cons.cons.cons => exact absurd rfl (hno a b c d rest)
        all_goals simp
      have htorn : settingsTorn (hi :: lo :: rest) = decide (hi.toNat * 256 + lo.toNat = 3) := by
        unfold settingsTorn
        rw [hshort]
        rfl
      rw [htorn]
      by_cases hid : hi.toNat * 256 + lo.toNat = 3
      · simp [hid, Exn.isIOError]
      · simp [hid]
  | case3 b limit => exact ⟨by simp [settingsTorn], by rintro _ ⟨⟩; rfl⟩
  | case4 => simp [settingsTorn]

theorem storeFields_raises (st : Stream) (fields : List Header) :
    (numericStatus fields = true ∧ (Conn.storeFields st fields).2 = none) ∨
      (numericStatus fields = false ∧ (Conn.storeFields st fields).2 = some .valueError) := by
  cases hn : numericStatus fields with
  | true => exact .inl ⟨rfl, storeFields_quiet st fields hn⟩
  | false =>
      refine .inr ⟨rfl, ?_⟩
      induction fields generalizing st with
      | nil => cases hn
      | cons field rest ih =>
          obtain ⟨name, value⟩ := field
          unfold Conn.storeFields
          by_cases hname : name = ":status"
          · rw [if_pos hname]
            cases hv : PyText.intOfStr 10 value.toList with
            | none => rfl
            | some status => exact ih _ (by simpa [numericStatus, hname, hv] using hn)
          · rw [if_neg hname]
            exact ih _ (by simpa [numericStatus, hname] using hn)

namespace Conn

-- Whether an operation raised what is no connection error.
def Faulty (raised : Option Exn) : Prop := ∃ exc, raised = some exc ∧ exc.isIOError = false

theorem not_faulty_none : ¬Faulty none := by rintro ⟨exc, h, _⟩; cases h

theorem faulty_some {exc : Exn} : Faulty (some exc) ↔ exc.isIOError = false := by simp [Faulty]

theorem not_faulty_write (c : Conn ε δ) (frames : List Frame) : ¬Faulty (c.write frames).2 := by
  rintro ⟨exc, he, hio⟩
  obtain ⟨n, _, rfl⟩ := Option.map_eq_some_iff.mp he
  cases hio

theorem faulty_finishHeaders (hp : Hpack ε δ) (c : Conn ε δ) :
    Faulty (c.finishHeaders hp).2 ↔
      c.hsid.any (· ∈ c.streams) = true ∧ unreadable (hp.decode c.dec c.hbuf).2 = true := by
  unfold finishHeaders
  cases hs : c.hsid with
  | none => simp [not_faulty_none]
  | some sid =>
      by_cases hin : sid ∈ c.streams
      · simp only [hin, decide_true, Option.filter_some_pos, Option.any_some, true_and]
        cases hd : (hp.decode c.dec c.hbuf).2 with
        | error exc => simp [faulty_some, unreadable]
        | ok fields =>
            rcases storeFields_raises (c.obj sid) fields with ⟨hn, he⟩ | ⟨hn, he⟩
            · simp [he, unreadable, hn, not_faulty_none]
            · simp [he, unreadable, hn, faulty_some, Exn.isIOError]
      · have hnone : (some sid).filter (· ∈ c.streams) = none := by simp [hin]
        simp [hnone, hin, not_faulty_none]

theorem not_faulty_onData (c : Conn ε δ) (f : Frame) : ¬Faulty (c.onData f).2 := by
  unfold onData
  split
  · by_cases hp : f.payload = []
    · simp [hp, not_faulty_none]
    · have hw := not_faulty_write (c.addChunk f) (dataCredit f)
      simp only [hp, ↓reduceIte]
      cases hr : ((c.addChunk f).write (dataCredit f)).2 with
      | none => exact not_faulty_none
      | some exc =>
          rw [hr] at hw
          exact hw
  · exact not_faulty_none

-- Of all that the peer can send, these frames and no others leave the reader
-- with what is no connection error.
theorem faulty_dispatch (hp : Hpack ε δ) (c : Conn ε δ) (f : Frame) :
    Faulty (c.dispatch hp f).2 ↔ garbled hp c f = true := by
  unfold dispatch garbled
  cases ht : f.ftype with
  | headers =>
      simp only [onHeaders]
      cases he : f.endHeaders with
      | true =>
          simp only [↓reduceIte, faulty_finishHeaders, Option.any_some, Bool.true_and, Bool.and_eq_true]
      | false => simp [not_faulty_none]
  | continuation =>
      simp only [onContinuation]
      cases he : f.endHeaders with
      | true => simp only [↓reduceIte, faulty_finishHeaders, Bool.true_and, Bool.and_eq_true]
      | false => simp [not_faulty_none]
  | data => simp [not_faulty_onData]
  | settings =>
      simp only [onSettings]
      cases hack : f.has F_ACK with
      | true => simp [not_faulty_none]
      | false =>
          obtain ⟨hsome, hio⟩ := readSettings_raises f.payload c.maxConcurrent
          simp only [Bool.false_eq_true, ↓reduceIte, Bool.not_false, Bool.true_and]
          cases hr : (readSettings f.payload c.maxConcurrent).2 with
          | some exc =>
              rw [hr] at hsome
              simp [faulty_some, hio exc hr, hsome.mp rfl]
          | none =>
              rw [hr] at hsome
              have hno : settingsTorn f.payload = false := by simpa using hsome
              simp [not_faulty_write, hno]
  | ping =>
      simp only [onPing]
      split <;> simp [not_faulty_none, not_faulty_write]
  | goaway | rst | windowUpdate | unknown => simp [not_faulty_none]

-- A stream that is pending has no error, and the error of one that is not is a
-- connection error.
structure Unspoilt (c : Conn ε δ) (sid : Nat) : Prop where
  old : sid < c.nextId
  pending : (c.obj sid).done = false → (c.obj sid).error = none
  error : ∀ exc, (c.obj sid).error = some exc → exc.isIOError = true

structure Spoilt (c : Conn ε δ) (sid : Nat) : Prop where
  old : sid < c.nextId
  done : (c.obj sid).done = true
  error : Faulty (c.obj sid).error

-- What a step may do to a stream object: its error stays, or the stream fails
-- with a connection error.
def Moves (st st' : Stream) : Prop :=
  (st'.error = st.error ∧ (st.done = true → st'.done = true)) ∨
    (st.done = false ∧ st'.done = true ∧ ∃ exc, st'.error = some exc ∧ exc.isIOError = true)

theorem Moves.same {st st' : Stream} (h : st' = st) : Moves st st' := .inl ⟨by rw [h], by rw [h]; exact id⟩

theorem Moves.trans {a b c : Stream} (h : Moves a b) (h' : Moves b c) : Moves a c := by
  rcases h with ⟨he, hd⟩ | ⟨ha, hb, exc, he, hio⟩
  · rcases h' with ⟨he', hd'⟩ | ⟨hb', hc, exc, he', hio⟩
    · exact .inl ⟨he'.trans he, hd' ∘ hd⟩
    · refine .inr ⟨?_, hc, exc, he', hio⟩
      by_contra hn
      rw [hd (by simpa using hn)] at hb'
      cases hb'
  · rcases h' with ⟨he', hd'⟩ | ⟨hb', _⟩
    · exact .inr ⟨ha, hd' hb, exc, he'.trans he, hio⟩
    · rw [hb] at hb'
      cases hb'

theorem Unspoilt.moves {c c' : Conn ε δ} {sid : Nat} (h : Unspoilt c sid) (hn : c.nextId ≤ c'.nextId)
    (hm : Moves (c.obj sid) (c'.obj sid)) : Unspoilt c' sid := by
  refine ⟨Nat.lt_of_lt_of_le h.old hn, ?_, ?_⟩
  · intro hd
    rcases hm with ⟨he, hdone⟩ | ⟨_, hdone, _⟩
    · refine he.trans (h.pending ?_)
      by_contra hc
      rw [hdone (by simpa using hc)] at hd
      cases hd
    · rw [hdone] at hd
      cases hd
  · intro exc hexc
    rcases hm with ⟨he, _⟩ | ⟨_, _, exc', he, hio⟩
    · exact h.error exc (he ▸ hexc)
    · obtain rfl := Option.some.inj (he.symm.trans hexc)
      exact hio

theorem Spoilt.moves {c c' : Conn ε δ} {sid : Nat} (h : Spoilt c sid) (hn : c.nextId ≤ c'.nextId)
    (hm : Moves (c.obj sid) (c'.obj sid)) : Spoilt c' sid := by
  rcases hm with ⟨he, hdone⟩ | ⟨hd, _⟩
  · exact ⟨Nat.lt_of_lt_of_le h.old hn, hdone h.done, he ▸ h.error⟩
  · rw [h.done] at hd
    cases hd

theorem moves_fail (c : Conn ε δ) {owner : Nat} (hd : (c.obj owner).done = false) {exc : Exn}
    (hio : exc.isIOError = true) (sid : Nat) : Moves (c.obj sid) ((c.fail owner exc).obj sid) := by
  by_cases hs : sid = owner
  · subst hs
    exact .inr ⟨hd, by simp [fail, modify], exc, by simp [fail, modify], hio⟩
  · exact .same (by simp [fail, modify, hs])

theorem moves_failItems (c : Conn ε δ) {exc : Exn} (hio : exc.isIOError = true) (pick : Nat → Bool)
    (items : List Nat) (sid : Nat) : Moves (c.obj sid) ((c.failItems exc pick items).obj sid) := by
  rw [failItems_eq]
  dsimp only
  split
  · rename_i hf
    exact .inr ⟨hf.2.2, rfl, exc, rfl, hio⟩
  · exact .same rfl

theorem moves_finish (c : Conn ε δ) (owner sid : Nat) : Moves (c.obj sid) ((c.finish owner).obj sid) := by
  by_cases hs : sid = owner
  · subst hs
    exact .inl ⟨by simp [finish, modify], fun _ => by simp [finish, modify]⟩
  · exact .same (by simp [finish, modify, hs])

theorem moves_addChunk (c : Conn ε δ) (f : Frame) (sid : Nat) :
    Moves (c.obj sid) ((c.addChunk f).obj sid) := by
  by_cases hs : sid = f.sid
  · subst hs
    exact .inl ⟨by simp [addChunk, modify], fun h => by simpa [addChunk, modify] using h⟩
  · exact .same (by simp [addChunk, modify, hs])

theorem moves_settleData (c : Conn ε δ) (f : Frame) (hd : (c.obj f.sid).done = false) (sid : Nat) :
    Moves (c.obj sid) ((c.settleData f).obj sid) := by
  unfold settleData
  dsimp only
  split
  · have hobj := sendRst_obj c f.sid
    rw [← hobj] at hd
    exact hobj ▸ moves_fail (c.sendRst f.sid) hd rfl sid
  · split
    · exact moves_finish c f.sid sid
    · exact .same rfl

theorem moves_onData (c : Conn ε δ) (f : Frame) (sid : Nat) :
    Moves (c.obj sid) ((c.onData f).1.obj sid) := by
  have hpending : f.sid ∈ c.streams ∧ (c.obj f.sid).done = false →
      ((c.addChunk f).obj f.sid).done = false := fun h => by simpa [addChunk, modify] using h.2
  rcases c.onData_cases f with ⟨_, he⟩ | ⟨hh, ⟨_, he⟩ | ⟨_, _, he⟩ | ⟨exc, he⟩⟩ <;> rw [he]
  · exact .same rfl
  · exact (moves_addChunk c f sid).trans (moves_settleData _ f (hpending hh) sid)
  · exact (moves_addChunk c f sid).trans
      (moves_settleData ((c.addChunk f).write (dataCredit f)).1 f (hpending hh) sid)
  · exact moves_addChunk c f sid

theorem moves_finishHeaders (hp : Hpack ε δ) (c : Conn ε δ) (sid : Nat) :
    Moves (c.obj sid) ((c.finishHeaders hp).1.obj sid) := by
  rcases c.finishHeaders_obj hp with ⟨hobj, _⟩ | ⟨owner, st, _, _, hobj, hsame, hd⟩
  · exact .same (by rw [hobj])
  · by_cases hs : sid = owner
    · subst hs
      refine .inl ⟨by rw [hobj, Function.update_self, hsame.error], fun hdone => ?_⟩
      cases hr : (c.finishHeaders hp).2 with
      | none => rw [hobj, Function.update_self, hd hr, hdone, Bool.true_or]
      | some exc => exact (finishHeaders_raised hr sid).trans hdone
    · exact .same (by rw [hobj, Function.update_of_ne hs])

theorem moves_dispatch (hp : Hpack ε δ) (c : Conn ε δ) (f : Frame) (sid : Nat) :
    Moves (c.obj sid) ((c.dispatch hp f).1.obj sid) := by
  unfold dispatch
  cases f.ftype with
  | headers =>
      simp only [onHeaders]
      split
      · exact moves_finishHeaders hp _ sid
      · exact .same rfl
  | continuation =>
      simp only [onContinuation]
      split
      · exact moves_finishHeaders hp _ sid
      · exact .same rfl
  | data => exact moves_onData c f sid
  | settings => exact .same (by simp only [onSettings_obj])
  | ping => exact .same (by simp only [onPing_obj])
  | goaway => exact moves_failItems (c.markGoaway f) rfl _ _ sid
  | rst =>
      simp only [onRst]
      split
      · rename_i hh
        exact moves_fail c hh.2 rfl sid
      · exact .same rfl
  | windowUpdate | unknown => exact .same rfl

theorem moves_exitReader (c : Conn ε δ) {exc : Exn} (hio : exc.isIOError = true) (sid : Nat) :
    Moves (c.obj sid) ((c.exitReader exc).obj sid) :=
  moves_failItems { c with closed := true } hio _ _ sid

-- A reader that ends takes no stream with it but those that wait.
theorem exitReader_obj (c : Conn ε δ) (exc : Exn) {sid : Nat}
    (h : ¬(sid ∈ c.streams ∧ (c.obj sid).done = false)) : (c.exitReader exc).obj sid = c.obj sid := by
  simp only [exitReader, failAll, failItems_eq, true_and]
  exact if_neg h

theorem spoilt_exitReader (c : Conn ε δ) {exc : Exn} (hio : exc.isIOError = false) {sid : Nat}
    (hold : sid < c.nextId) (hin : sid ∈ c.streams) (hd : (c.obj sid).done = false) :
    Spoilt (c.exitReader exc) sid := by
  refine ⟨(stable_exitReader c exc).nextId ▸ hold, ?_, exc, ?_, hio⟩ <;>
    simp [exitReader, failAll, failItems_eq, hin, hd]

-- Everything a step does to a stream that it does not spoil.
theorem moves_step {hp : Hpack ε δ} {c c' : Conn ε δ} {e : Event} {sid : Nat} (hold : sid < c.nextId)
    (hs : step hp c e = some c') (hno : spoils hp sid c e = false) :
    c.nextId ≤ c'.nextId ∧ Moves (c.obj sid) (c'.obj sid) := by
  cases step_happens hs with
  | frame f _ _ _ => exact ⟨(kept_dispatch hp c f).nextId.ge, moves_dispatch hp c f sid⟩
  | raised f exc hr hw he =>
      have hnext : c.nextId ≤ ((c.dispatch hp f).1.exitReader exc).nextId :=
        ((stable_exitReader _ exc).nextId.trans (kept_dispatch hp c f).nextId).ge
      refine ⟨hnext, (moves_dispatch hp c f sid).trans ?_⟩
      cases hio : exc.isIOError with
      | true => exact moves_exitReader _ hio sid
      | false =>
          have hg : garbled hp c f = true := (faulty_dispatch hp c f).mp ⟨exc, he, hio⟩
          refine .same (exitReader_obj _ exc ?_)
          rw [(kept_dispatch hp c f).streams, dispatch_raised he sid]
          rintro ⟨hin, hd⟩
          simp [spoils, hr, hw, hin, hd, hg] at hno
  | eof _ | stopped _ _ => exact ⟨(stable_exitReader c _).nextId.ge, moves_exitReader c rfl sid⟩
  | idle _ _ | acquire _ | refused _ | pop _ => exact ⟨Nat.le_refl _, .same rfl⟩
  | send args =>
      rcases send_cases hp c args with ⟨hnext, hobj, _⟩ | ⟨_, hnext, hobj, _⟩
      · exact ⟨hnext.ge, .same (by rw [hobj])⟩
      · exact ⟨by omega, .same (by rw [hobj, Function.update_of_ne (Nat.ne_of_lt hold)])⟩
  | rst other => exact ⟨(kept_sendRst c other).nextId.ge, .same (by rw [sendRst_obj])⟩
  | close =>
      refine ⟨c.stable_close.nextId.ge, ?_⟩
      rcases c.close_cases with ⟨_, he⟩ | ⟨_, he⟩ | ⟨_, he⟩ <;> rw [he]
      · exact .same rfl
      · exact .same rfl
      · exact moves_exitReader c rfl sid

theorem spoilt_step {hp : Hpack ε δ} {c c' : Conn ε δ} {e : Event} {sid : Nat} (hold : sid < c.nextId)
    (hs : step hp c e = some c') (hspoils : spoils hp sid c e = true) : Spoilt c' sid := by
  cases e with
  | frame f =>
      simp only [spoils, Bool.and_eq_true, decide_eq_true_eq, Bool.not_eq_true'] at hspoils
      obtain ⟨⟨⟨⟨_, _⟩, hin⟩, hd⟩, hg⟩ := hspoils
      obtain ⟨exc, hexc, hio⟩ := (faulty_dispatch hp c f).mpr hg
      simp only [step, Option.ite_none_right_eq_some, Option.some.injEq] at hs
      obtain ⟨_, rfl⟩ := hs
      rcases c.readFrame_cases hp f with ⟨hn, _⟩ | ⟨exc', hexc', he⟩
      · rw [hn] at hexc
        cases hexc
      · obtain rfl := Option.some.inj (hexc'.symm.trans hexc)
        rw [he]
        apply spoilt_exitReader _ hio
        · exact (kept_dispatch hp c f).nextId ▸ hold
        · exact (kept_dispatch hp c f).streams ▸ hin
        · exact (dispatch_raised hexc sid).trans hd
  | _ => cases hspoils

-- Nothing touches the error of a stream that is done.
theorem done_after (hp : Hpack ε δ) {c : Conn ε δ} {sid : Nat} (hold : sid < c.nextId)
    (hd : (c.obj sid).done = true) (events : List Event) :
    sid < (c.after hp events).nextId ∧ ((c.after hp events).obj sid).done = true ∧
      ((c.after hp events).obj sid).error = (c.obj sid).error := by
  induction events generalizing c with
  | nil => exact ⟨hold, hd, rfl⟩
  | cons e rest ih =>
      have hafter : c.after hp (e :: rest) = ((step hp c e).getD c).after hp rest := rfl
      rw [hafter]
      cases hs : step hp c e with
      | none => exact ih hold hd
      | some c' =>
          have hno : spoils hp sid c e = false := by
            cases e <;> simp [spoils, hd]
          obtain ⟨hnext, ⟨he, hdone⟩ | ⟨hpending, _⟩⟩ := moves_step hold hs hno
          · obtain ⟨hold', hd', he'⟩ := ih (Nat.lt_of_lt_of_le hold hnext) (hdone hd)
            exact ⟨hold', hd', he'.trans he⟩
          · rw [hd] at hpending
            cases hpending

theorem Spoilt.after {c : Conn ε δ} {sid : Nat} (h : Spoilt c sid) (hp : Hpack ε δ)
    (events : List Event) : Spoilt (c.after hp events) sid := by
  obtain ⟨hold, hd, he⟩ := done_after hp h.old h.done events
  exact ⟨hold, hd, he ▸ h.error⟩

-- Whatever happens, the stream is spoilt exactly if a frame spoils it.
theorem after_spoilt (hp : Hpack ε δ) {c : Conn ε δ} {sid : Nat} (h : Unspoilt c sid)
    (events : List Event) :
    (spoilt hp sid c events = true → Spoilt (c.after hp events) sid) ∧
      (spoilt hp sid c events = false → Unspoilt (c.after hp events) sid) := by
  induction events generalizing c with
  | nil => exact ⟨by simp [spoilt], fun _ => h⟩
  | cons e rest ih =>
      have hafter : c.after hp (e :: rest) = ((step hp c e).getD c).after hp rest := rfl
      rw [hafter]
      cases hs : spoils hp sid c e with
      | true =>
          refine ⟨fun _ => Spoilt.after ?_ hp rest, by simp [spoilt, hs]⟩
          have hstep : ∃ c', step hp c e = some c' := by
            cases e with
            | frame f =>
                simp only [spoils, Bool.and_eq_true, decide_eq_true_eq] at hs
                exact ⟨c.readFrame hp f, by simp [step, hs.1.1.1.1, hs.1.1.1.2]⟩
            | _ => cases hs
          obtain ⟨c', hc'⟩ := hstep
          rw [hc']
          exact spoilt_step h.old hc' hs
      | false =>
          simp only [spoilt, hs, Bool.false_or]
          apply ih
          cases hstep : step hp c e with
          | none => exact h
          | some c' => exact h.moves (moves_step h.old hstep hs).1 (moves_step h.old hstep hs).2

theorem emit_raised (hp : Hpack ε δ) (c : Conn ε δ) (sid : Nat) (fields : List Header) (body : Body) :
    (c.emit hp sid fields body).2 = match (hp.encode c.enc fields).2, body with
      | .error exc, _ => some exc
      | .ok block, .other truthy =>
          some (if (headersFrame sid block (!truthy)).packs then .typeError else .structError)
      | .ok block, .bytes data =>
          if (headersFrame sid block (!(Body.bytes data).truthy)).packs then
            (c.tp.fate c.tp.log.length).map fun _ => .ioError "fxtls_write failed"
          else some .structError := by
  unfold emit
  dsimp only
  cases (hp.encode c.enc fields).2 with
  | error exc => rfl
  | ok block =>
      cases body with
      | other truthy =>
          simp only [Body.truthy]
          by_cases hpacks : (headersFrame sid block (!truthy)).packs = true <;> simp [hpacks]
      | bytes data =>
          dsimp only
          cases (headersFrame sid block (!(Body.bytes data).truthy)).packs <;> rfl

-- What an emission raises is no connection error just if the request cannot be sent.
theorem unsendable_iff_raised {hp : Hpack ε δ} {c : Conn ε δ} {args : SendArgs} {fields : List Header} {exc : Exn}
    (hclosed : c.closed = false) (hfields : args.fields = some fields)
    (hraised : ((c.allocate.register c.nextId args.maxBytes).emit hp c.nextId fields args.body).2 = some exc) :
    exc.isIOError = false ↔ unsendable hp c args = true := by
  have heq : ((c.allocate.register c.nextId args.maxBytes).emit hp c.nextId fields args.body).2 =
      match (hp.encode c.enc fields).2, args.body with
        | .error exc, _ => some exc
        | .ok block, .other truthy =>
            some (if (headersFrame c.nextId block (!truthy)).packs then .typeError else .structError)
        | .ok block, .bytes data =>
            if (headersFrame c.nextId block (!(Body.bytes data).truthy)).packs then
              (c.tp.fate c.tp.log.length).map fun _ => .ioError "fxtls_write failed"
            else some .structError := emit_raised hp _ _ _ _
  rw [hraised] at heq
  unfold unsendable
  rw [hclosed, hfields]
  dsimp only
  split at heq
  · rename_i exc' henc
    obtain rfl := Option.some.inj heq
    simp [henc]
  · rename_i block truthy henc hbody
    obtain rfl := Option.some.inj heq
    simp only [henc, hbody]
    split <;> simp [Exn.isIOError]
  · rename_i block data henc hbody
    simp only [henc, hbody]
    split at heq
    · rename_i hpacks
      obtain ⟨n, _, rfl⟩ := Option.map_eq_some_iff.mp heq.symm
      simp [Exn.isIOError, hpacks]
    · rename_i hpacks
      obtain rfl := Option.some.inj heq
      simp [Exn.isIOError, hpacks]

theorem sendable_of_emits {hp : Hpack ε δ} {c : Conn ε δ} {args : SendArgs} {fields : List Header}
    (hfields : args.fields = some fields) (h : emits hp c args fields = true) :
    unsendable hp c args = false := by
  unfold emits at h
  unfold unsendable
  rw [hfields]
  dsimp only
  split at h
  · rename_i block data henc hbody
    simp only [henc, hbody, Bool.and_eq_true] at h ⊢
    simp [h.1]
  · cases h

-- A send raises over the connection, or because the request cannot be sent, or
-- leaves a stream that waits for its response.
theorem send_faults (hp : Hpack ε δ) (c : Conn ε δ) (args : SendArgs) :
    (written hp c args = false ∧ ∃ exc, (c.send hp args).2 = .error exc ∧
        (exc.isIOError = false ↔ unsendable hp c args = true)) ∨
      (written hp c args = true ∧ unsendable hp c args = false ∧ (c.send hp args).2 = .ok c.nextId ∧
        Unspoilt (c.send hp args).1 c.nextId) := by
  rw [c.send_fst, c.send_snd]
  rcases hclosed : c.closed with _ | _
  case true =>
    have he : c.trySend hp args = (c, .error (.connectionError "h2 connection closed")) := by
      simp [trySend, hclosed]
    rw [he]
    exact .inl ⟨by simp [written, hclosed], _, rfl, by simp [unsendable, hclosed, Exn.isIOError]⟩
  cases hfields : args.fields with
  | none =>
      have he : c.trySend hp args = (c, .error .attributeError) := by simp [trySend, hclosed, hfields]
      rw [he]
      exact .inl ⟨by simp [written, hfields], _, rfl, by simp [unsendable, hclosed, hfields, Exn.isIOError]⟩
  | some fields =>
      have hwritten : written hp c args = emits hp c args fields := by
        simp [written, hclosed, hfields]
      have hiff := emits_iff hp c args fields
      rcases c.trySend_cases hp args with ⟨hno | hno, _⟩ | ⟨fields', _, hf, he⟩
      · rw [hclosed] at hno
        cases hno
      · rw [hfields] at hno
        cases hno
      obtain rfl := Option.some.inj (hfields.symm.trans hf)
      rw [he, hwritten]
      dsimp only
      cases hem : ((c.allocate.register c.nextId args.maxBytes).emit hp c.nextId fields args.body).2 with
      | some exc =>
          have hno : emits hp c args fields = false := by
            by_contra hc
            rw [hiff.mp (by simpa using hc)] at hem
            cases hem
          exact .inl ⟨hno, exc, rfl, unsendable_iff_raised hclosed hfields hem⟩
      | none =>
          have hemits : emits hp c args fields = true := hiff.mpr hem
          refine .inr ⟨hemits, sendable_of_emits hfields hemits, rfl, ?_⟩
          obtain ⟨writes, hm⟩ := (c.allocate.register c.nextId args.maxBytes).emit_state hp c.nextId
            fields args.body
          rw [hm]
          refine ⟨?_, ?_, ?_⟩ <;> simp [release, register, allocate]

-- A request fails with what is no connection error exactly if it cannot be sent
-- or a frame spoils its stream.
theorem request_faulty (hp : Hpack ε δ) (c : Conn ε δ) (args : SendArgs) (timeout : Nat)
    (wait late : List Event) :
    (∃ exc, (c.request hp args timeout wait late).1 = .error exc ∧ exc.isIOError = false) ↔
      unsendable hp c args = true ∨
        (written hp c args = true ∧ spoilt hp c.nextId (c.send hp args).1 wait = true) := by
  unfold request
  rcases send_faults hp c args with ⟨hno, exc, he, hiff⟩ | ⟨hw, hsendable, hok, hfresh⟩
  · rcases hs : c.send hp args with ⟨c', result⟩
    rw [hs] at he
    obtain rfl : result = .error exc := he
    simp [hno, hiff]
  · rcases hs : c.send hp args with ⟨c', result⟩
    rw [hs] at hok hfresh
    obtain rfl : result = .ok c.nextId := hok
    obtain ⟨hyes, hno⟩ := after_spoilt hp hfresh wait
    simp only [hw, hsendable, Bool.false_eq_true, false_or, true_and]
    cases hspoilt : spoilt hp c.nextId c' wait with
    | true =>
        have hdone := hyes hspoilt
        obtain ⟨exc, hexc, hio⟩ := (hdone.after hp late).error
        rw [if_pos hdone.done]
        exact iff_of_true ⟨exc, by simp [outcome, hexc], hio⟩ rfl
    | false =>
        have hsound := hno hspoilt
        refine iff_of_false ?_ (by simp)
        rintro ⟨exc, hexc, hio⟩
        by_cases hd : ((c'.after hp wait).obj c.nextId).done = true
        · obtain ⟨_, _, he⟩ := done_after hp hsound.old hd late
          rw [if_pos hd] at hexc
          unfold outcome at hexc
          split at hexc
          · rename_i exc' hsome
            obtain rfl := Except.error.inj hexc
            have hio' := hsound.error exc' (he ▸ hsome)
            rw [hio] at hio'
            cases hio'
          · cases hexc
        · rw [if_neg hd] at hexc
          obtain rfl := Except.error.inj hexc
          cases hio

end Conn

end NeverFox.H2
