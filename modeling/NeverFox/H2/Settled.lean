import NeverFox.H2.Faults
import NeverFox.H2.Serving

namespace NeverFox.H2

variable {ε δ : Type}

-- The fields that the storing loop gets to: those before the first status
-- that int() rejects.
def readable (fields : List Header) : List Header :=
  fields.takeWhile fun field => field.1 ≠ ":status" || (PyText.intOfStr 10 field.2.toList).isSome

-- The status it leaves.
def statusAfter (status : Option Int) (fields : List Header) : Option Int :=
  fields.foldl (fun status field =>
    if field.1 = ":status" then PyText.intOfStr 10 field.2.toList else status) status

-- The fields that a frame stores on a stream.
def Conn.storedOn (hp : Hpack ε δ) (c : Conn ε δ) (sid : Nat) : Event → Option (List Header)
  | .frame f =>
      match c.blockEnd f with
      | some (owner, block) =>
          if owner = sid ∧ sid ∈ c.streams then (hp.decode c.dec block).2.toOption else none
      | none => none
  | _ => none

-- A header block on a stream without an error that brings it another field or
-- another status.
def rewrites (hp : Hpack ε δ) (sid : Nat) (c : Conn ε δ) (e : Event) : Prop :=
  (c.obj sid).error = none ∧ ∃ fields, c.storedOn hp sid e = some fields ∧
    (plainFields (readable fields) ≠ [] ∨
      statusAfter (c.obj sid).status (readable fields) ≠ (c.obj sid).status)

namespace Conn

theorem storeFields_fst (st : Stream) (fields : List Header) :
    (storeFields st fields).1 = { st with
      status := statusAfter st.status (readable fields)
      headers := st.headers ++ plainFields (readable fields) } := by
  induction fields generalizing st with
  | nil => simp [storeFields, readable, statusAfter, plainFields]
  | cons field rest ih =>
      obtain ⟨name, value⟩ := field
      unfold storeFields
      by_cases hname : name = ":status"
      · rw [if_pos hname]
        cases hv : PyText.intOfStr 10 value.toList with
        | none => simp [readable, hname, hv, statusAfter, plainFields]
        | some status => simp [ih, readable, hname, hv, statusAfter, plainFields]
      · rw [if_neg hname]
        simp [ih, readable, hname, statusAfter, plainFields]

theorem outcome_storeFields (st : Stream) (fields : List Header) :
    outcome (storeFields st fields).1 = outcome st ↔
      ¬(st.error = none ∧ (plainFields (readable fields) ≠ [] ∨
        statusAfter st.status (readable fields) ≠ st.status)) := by
  rw [storeFields_fst]
  unfold outcome
  cases st.error with
  | some exc => simp
  | none =>
      simp only [Except.ok.injEq, RawResponse.mk.injEq, List.append_right_eq_self, and_true, true_and, not_or,
        ne_eq, not_not]
      exact and_comm

-- What a finished block does to a stream that is done.
theorem finishHeaders_done (hp : Hpack ε δ) (c : Conn ε δ) {sid : Nat} (hd : (c.obj sid).done = true) :
    (c.finishHeaders hp).1.obj sid =
      match if c.hsid = some sid ∧ sid ∈ c.streams then (hp.decode c.dec c.hbuf).2.toOption else none with
      | some fields => (storeFields (c.obj sid) fields).1
      | none => c.obj sid := by
  by_cases hs : c.hsid = some sid
  · by_cases hin : sid ∈ c.streams
    · rw [if_pos ⟨hs, hin⟩]
      unfold finishHeaders
      simp only [hs, hin, decide_true, Option.filter_some_pos]
      cases (hp.decode c.dec c.hbuf).2 with
      | error exc => rfl
      | ok fields =>
          obtain ⟨st, raised, hst⟩ : ∃ st raised, storeFields (c.obj sid) fields = (st, raised) :=
            ⟨_, _, rfl⟩
          have hdone : st.done = true := by
            have hfst := congrArg (fun r => r.1.done) hst
            simp only [storeFields_fst, hd] at hfst
            exact hfst.symm
          simp only [Except.toOption, hst]
          cases raised with
          | some exc => exact Function.update_self ..
          | none =>
              cases c.hend with
              | true => simp [finish, modify, resetBlock, ← hdone]
              | false => exact Function.update_self ..
    · rw [if_neg fun h => hin h.2]
      have hnone : c.hsid.filter (· ∈ c.streams) = none := by simp [hs, hin]
      simp only [finishHeaders, hnone]
      rfl
  · rw [if_neg fun h => hs h.1, finishHeaders_other hp hs]

-- Of all frames only one that completes a header block touches such a stream.
theorem dispatch_done (hp : Hpack ε δ) (c : Conn ε δ) (f : Frame) {sid : Nat}
    (hd : (c.obj sid).done = true) :
    (c.dispatch hp f).1.obj sid =
      match c.storedOn hp sid (.frame f) with
      | some fields => (storeFields (c.obj sid) fields).1
      | none => c.obj sid := by
  unfold dispatch storedOn blockEnd
  cases ht : f.ftype with
  | headers =>
      simp only [onHeaders, ht]
      cases f.endHeaders with
      | true =>
          simp only [↓reduceIte]
          exact (finishHeaders_done hp { c with hsid := some f.sid, hbuf := f.payload, hend := f.endStream }
            hd).trans (by simp only [Option.some.injEq])
      | false => rfl
  | continuation =>
      simp only [onContinuation, ht]
      cases f.endHeaders with
      | true =>
          simp only [↓reduceIte]
          refine (finishHeaders_done hp { c with hbuf := c.hbuf ++ f.payload } hd).trans ?_
          cases c.hsid with
          | none => rfl
          | some owner => simp only [Option.some.injEq, Option.map_some]
      | false => rfl
  | data =>
      simp only [ht]
      rcases c.onData_cases f with ⟨_, he⟩ | ⟨hh, _⟩
      · rw [he]
      · by_cases hs : sid = f.sid
        · subst hs
          exact absurd hh.2 (by simp [hd])
        · exact onData_other c f hs
  | settings => simp only [ht, onSettings_obj]
  | ping => simp only [ht, onPing_obj]
  | goaway => simp [ht, onGoaway, failItems_eq, markGoaway, hd]
  | rst =>
      simp only [ht, onRst]
      split
      · rename_i hh
        by_cases hs : sid = f.sid
        · subst hs
          exact absurd hh.2 (by simp [hd])
        · exact Function.update_of_ne hs _ _
      · rfl
  | windowUpdate | unknown => simp only [ht]

-- Nor does anything else that happens to the connection.
theorem step_done {hp : Hpack ε δ} {c c' : Conn ε δ} {e : Event} {sid : Nat} (hold : sid < c.nextId)
    (hd : (c.obj sid).done = true) (hs : step hp c e = some c') :
    c'.obj sid =
      match c.storedOn hp sid e with
      | some fields => (storeFields (c.obj sid) fields).1
      | none => c.obj sid := by
  cases step_happens hs with
  | frame f => exact dispatch_done hp c f hd
  | raised f exc _ _ he =>
      rw [exitReader_obj, dispatch_done hp c f hd]
      rintro ⟨_, hopen⟩
      rw [dispatch_raised he, hd] at hopen
      cases hopen
  | eof | stopped =>
      apply exitReader_obj
      rintro ⟨_, hopen⟩
      rw [hd] at hopen
      cases hopen
  | idle | acquire | refused | pop => rfl
  | send args =>
      rcases send_cases hp c args with ⟨_, hobj, _⟩ | ⟨_, _, hobj, _⟩ <;> simp only [storedOn, hobj]
      exact Function.update_of_ne (Nat.ne_of_lt hold) _ _
  | rst other => exact congrFun (sendRst_obj c other) sid
  | close =>
      rcases c.close_cases with ⟨_, he⟩ | ⟨_, he⟩ | ⟨_, he⟩ <;> rw [he]
      · rfl
      · rfl
      · refine exitReader_obj c _ ?_
        rintro ⟨_, hopen⟩
        rw [hd] at hopen
        cases hopen

theorem finishHeaders_absent (hp : Hpack ε δ) (c : Conn ε δ) {sid : Nat} (hno : sid ∉ c.streams) :
    (c.finishHeaders hp).1.obj sid = c.obj sid := by
  rcases c.finishHeaders_obj hp with ⟨hobj, _⟩ | ⟨owner, st, _, hin, hobj, _⟩ <;> rw [hobj]
  apply Function.update_of_ne
  rintro rfl
  exact hno hin

-- Frames reach the registered streams only.
theorem dispatch_absent (hp : Hpack ε δ) (c : Conn ε δ) (f : Frame) {sid : Nat} (hno : sid ∉ c.streams) :
    (c.dispatch hp f).1.obj sid = c.obj sid := by
  unfold dispatch
  cases f.ftype with
  | headers =>
      simp only [onHeaders]
      split
      · exact finishHeaders_absent hp _ hno
      · rfl
  | continuation =>
      simp only [onContinuation]
      split
      · exact finishHeaders_absent hp _ hno
      · rfl
  | data =>
      rcases c.onData_cases f with ⟨_, he⟩ | ⟨hh, _⟩
      · simp only [he]
      · apply onData_other
        rintro rfl
        exact hno hh.1
  | settings => simp only [onSettings_obj]
  | ping => simp only [onPing_obj]
  | goaway => simp [onGoaway, failItems_eq, markGoaway, hno]
  | rst =>
      simp only [onRst]
      split
      · rename_i hh
        apply Function.update_of_ne
        rintro rfl
        exact hno hh.1
      · rfl
  | windowUpdate | unknown => rfl

-- An id not yet given out has no stream, and its object is not done.
def Allotted (c : Conn ε δ) : Prop :=
  ∀ sid, c.nextId ≤ sid → sid ∉ c.streams ∧ (c.obj sid).done = false

theorem Allotted.keep {c c' : Conn ε δ} (h : Allotted c) (hnext : c'.nextId = c.nextId)
    (hstreams : c'.streams ⊆ c.streams) (hobj : ∀ sid, sid ∉ c.streams → c'.obj sid = c.obj sid) :
    Allotted c' := by
  intro sid hsid
  obtain ⟨hno, hd⟩ := h sid (hnext ▸ hsid)
  exact ⟨fun hin => hno (hstreams hin), (hobj sid hno).symm ▸ hd⟩

theorem Allotted.exitReader {c : Conn ε δ} (h : Allotted c) (exc : Exn) : Allotted (c.exitReader exc) := by
  have hk := c.stable_exitReader exc
  exact h.keep hk.nextId (hk.streams ▸ List.Subset.refl _) fun sid hno => c.exitReader_obj exc (hno ·.1)

theorem Allotted.send {c : Conn ε δ} (h : Allotted c) (hp : Hpack ε δ) (args : SendArgs) :
    Allotted (c.send hp args).1 := by
  rcases send_cases hp c args with ⟨hnext, hobj, hstreams, _⟩ | ⟨_, hnext, hobj, hstreams, _⟩
  · exact h.keep hnext (hstreams ▸ List.Subset.refl _) fun sid _ => congrFun hobj sid
  · intro sid hsid
    obtain ⟨hno, hd⟩ := h sid (by omega)
    have hne : sid ≠ c.nextId := by omega
    rw [hobj, hstreams, mem_register, Function.update_of_ne hne]
    refine ⟨?_, hd⟩
    rintro (hin | heq)
    · exact hno hin
    · exact hne heq

theorem Allotted.step {hp : Hpack ε δ} {c c' : Conn ε δ} {e : Event} (h : Allotted c)
    (hs : step hp c e = some c') : Allotted c' := by
  have hdispatch : ∀ f, Allotted (c.dispatch hp f).1 := by
    intro f
    have hk := c.kept_dispatch hp f
    exact h.keep hk.nextId (hk.streams ▸ List.Subset.refl _) fun sid hno => c.dispatch_absent hp f hno
  cases step_happens hs with
  | frame f => exact hdispatch f
  | raised f exc => exact (hdispatch f).exitReader exc
  | eof | stopped => exact h.exitReader _
  | idle | refused => exact h
  | acquire => exact h
  | send args => exact h.send hp args
  | rst other =>
      have hk := c.kept_sendRst other
      exact h.keep hk.nextId (hk.streams ▸ List.Subset.refl _) fun sid _ => congrFun (sendRst_obj c other) sid
  | pop other => exact h.keep rfl (List.erase_subset ..) fun _ _ => rfl
  | close =>
      have hk := c.stable_close
      refine h.keep hk.nextId (hk.streams ▸ List.Subset.refl _) fun sid hno => ?_
      rcases c.close_cases with ⟨_, he⟩ | ⟨_, he⟩ | ⟨_, he⟩ <;> rw [he]
      exact c.exitReader_obj _ (hno ·.1)

theorem Allotted.run {hp : Hpack ε δ} {fate : Nat → Option Nat} {events : List Event} {c : Conn ε δ}
    (hrun : Transition.run (H2.step hp) (.init hp fate) events = some c) : Allotted c := by
  apply Transition.invariant_always Allotted (fun _ _ _ h hs => h.step hs) ?_ hrun
  intro sid _
  exact ⟨List.not_mem_nil, rfl⟩

-- A stream that is done keeps its outcome in a step exactly when the step is
-- no header block that brings it something else.
theorem outcome_step {hp : Hpack ε δ} {c c' : Conn ε δ} {e : Event} {sid : Nat} (hold : sid < c.nextId)
    (hd : (c.obj sid).done = true) (hs : H2.step hp c e = some c') :
    (c'.obj sid).done = true ∧
      (outcome (c'.obj sid) = outcome (c.obj sid) ↔ ¬rewrites hp sid c e) := by
  rw [step_done hold hd hs]
  unfold rewrites
  cases c.storedOn hp sid e with
  | none => simp [hd]
  | some fields =>
      refine ⟨?_, ?_⟩
      · simp only [storeFields_fst, hd]
      · simp only [outcome_storeFields, Option.some.injEq, exists_eq_left']

end Conn

-- From any state that a run reaches with the stream done, its outcome stays
-- what it is in every state after that exactly when none of the steps brings
-- it another field or another status.
theorem settled_iff (hp : Hpack ε δ) (fate : Nat → Option Nat) (before after : List Event)
    (c c' : Conn ε δ) (sid : Nat) (hrun : Transition.run (step hp) (.init hp fate) before = some c)
    (hdone : (c.obj sid).done = true) (hafter : Transition.run (step hp) c after = some c') :
    (∀ pre mid, pre <+: after → Transition.run (step hp) c pre = some mid →
      Conn.outcome (mid.obj sid) = Conn.outcome (c.obj sid)) ↔
      Transition.Meets (step hp) (fun s e => ¬rewrites hp sid s e) c after := by
  have hold : sid < c.nextId := by
    by_contra hno
    have hopen := (Conn.Allotted.run hrun sid (by omega)).2
    rw [hdone] at hopen
    cases hopen
  apply Transition.always_iff (fun s => sid < s.nextId ∧ (s.obj sid).done = true)
    (fun s => Conn.outcome (s.obj sid) = Conn.outcome (c.obj sid)) _ ⟨hold, hdone⟩ rfl hafter
  intro s e next haux hinv hs
  obtain ⟨hd, hiff⟩ := Conn.outcome_step haux.1 haux.2 hs
  refine ⟨⟨?_, hd⟩, hinv ▸ hiff⟩
  rcases nextId_step hs with hn | ⟨hn, _⟩ <;> omega

-- A whole response in one frame.
def wholeResponse : Frame := ⟨.headers, F_END_HEADERS ||| F_END_STREAM, 1, [0x88]⟩

def responseHeard : Conn Unit Unit :=
  ((Conn.init staticCodec fun _ => none).send staticCodec getRequest).1.readFrame staticCodec wholeResponse

theorem run_responseHeard :
    Transition.run (step staticCodec) (.init staticCodec fun _ => none)
      [.send getRequest, .frame wholeResponse] = some responseHeard := rfl

def lateFrames : List Event :=
  [.frame ⟨.data, 0, 1, [104]⟩, .frame (rstStream 1 2), .frame ⟨.goaway, 0, 0, []⟩, .eof]

-- DATA, RST_STREAM, GOAWAY and the end of the connection change nothing in it.
theorem settled_late_frames :
    ∃ c', Transition.run (step staticCodec) responseHeard lateFrames = some c' ∧
      Conn.outcome (c'.obj 1) = .ok ⟨some 200, [], []⟩ := by
  refine ⟨_, rfl, ?_⟩
  have hsettled := (settled_iff staticCodec (fun _ => none) _ lateFrames responseHeard _ 1
    run_responseHeard rfl rfl).mpr ?_
  · exact (hsettled _ _ (List.prefix_refl _) rfl).trans (by decide)
  · apply Transition.Meets.of_forall
    simp only [lateFrames, List.forall_mem_cons]
    refine ⟨?_, ?_, ?_, ?_, by simp⟩ <;> rintro c ⟨_, fields, hstored, _⟩ <;> cases hstored

-- A second block on the stream changes the status of a response that is complete.
theorem second_block_rewrites :
    ∃ c c', Transition.run (step staticCodec) (.init staticCodec fun _ => none)
        [.send getRequest, .frame wholeResponse] = some c ∧
      Transition.run (step staticCodec) c [.frame ⟨.headers, F_END_HEADERS, 1, [0x8d]⟩] = some c' ∧
      (c.obj 1).done = true ∧ Conn.outcome (c.obj 1) = .ok ⟨some 200, [], []⟩ ∧
      Conn.outcome (c'.obj 1) = .ok ⟨some 404, [], []⟩ :=
  ⟨responseHeard, _, run_responseHeard, rfl, by decide, by decide, by decide⟩

end NeverFox.H2
