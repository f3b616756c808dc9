import NeverFox.Lib.Run
import NeverFox.Pool.Bound
import NeverFox.Pool.Wired

namespace NeverFox.Pool

open NeverFox.H2 NeverFox.Client

variable {ε δ : Type}

-- Where the phases come from in which a connection is closed or a request ends.
structure Turned (s s' : State ε δ) (a : Act) : Prop where
  closing : ∀ t todo next, s'.caller t = .closing todo next →
    (∃ old prev, s.caller t = .closing old prev ∧ todo ⊆ old) ∨ todo = s.dead ∨
      ∃ key, a = .getConn t key ∧ todo = s.draining
  woken : ∀ t j sid, s'.caller t = .woken j sid →
    s.caller t = .woken j sid ∨ s.caller t = .pending j sid ∧ ((s.conns j).obj sid).done = true
  expired : ∀ t j sid, s'.caller t = .expired j sid →
    s.caller t = .expired j sid ∨ a = .expire t ∧ s.caller t = .pending j sid
  returned : ∀ j sid r, (j, sid, r) ∈ s'.returned → (j, sid, r) ∈ s.returned ∨
    ∃ t, s.caller t = .woken j sid ∧ r = Conn.outcome ((s.conns j).obj sid)

namespace Turned

variable {hp : Hpack ε δ} {s s' : State ε δ} {a : Act}

theorem of_update {t : Nat} {caller : Caller} (hcaller : s'.caller = Function.update s.caller t caller)
    (hclosing : ∀ todo next, caller = .closing todo next →
      (∃ old prev, s.caller t = .closing old prev ∧ todo ⊆ old) ∨ todo = s.dead ∨
        ∃ key, a = .getConn t key ∧ todo = s.draining)
    (hwoken : ∀ j sid, caller = .woken j sid →
      s.caller t = .pending j sid ∧ ((s.conns j).obj sid).done = true)
    (hexpired : ∀ j sid, caller = .expired j sid → a = .expire t ∧ s.caller t = .pending j sid)
    (hreturned : ∀ j sid r, (j, sid, r) ∈ s'.returned → (j, sid, r) ∈ s.returned ∨
      ∃ t, s.caller t = .woken j sid ∧ r = Conn.outcome ((s.conns j).obj sid)) : Turned s s' a := by
  refine ⟨?_, ?_, ?_, hreturned⟩
  · intro other todo next hc
    rw [hcaller] at hc
    by_cases ho : other = t
    · subst ho
      rw [Function.update_self] at hc
      exact hclosing todo next hc
    · rw [Function.update_of_ne ho] at hc
      exact .inl ⟨todo, next, hc, List.Subset.refl _⟩
  · intro other j sid hc
    rw [hcaller] at hc
    by_cases ho : other = t
    · subst ho
      rw [Function.update_self] at hc
      exact .inr (hwoken j sid hc)
    · rw [Function.update_of_ne ho] at hc
      exact .inl hc
  · intro other j sid hc
    rw [hcaller] at hc
    by_cases ho : other = t
    · subst ho
      rw [Function.update_self] at hc
      exact .inr (hexpired j sid hc)
    · rw [Function.update_of_ne ho] at hc
      exact .inl hc

-- Most phases are none of these.
theorem plain {t : Nat} {caller : Caller} (hcaller : s'.caller = Function.update s.caller t caller)
    (hreturned : s'.returned = s.returned) (hclosing : ∀ todo next, caller ≠ .closing todo next)
    (hwoken : ∀ j sid, caller ≠ .woken j sid) (hexpired : ∀ j sid, caller ≠ .expired j sid) :
    Turned s s' a :=
  of_update hcaller (fun todo next hc => absurd hc (hclosing todo next))
    (fun j sid hc => absurd hc (hwoken j sid)) (fun j sid hc => absurd hc (hexpired j sid))
    fun _ _ _ hr => .inl (hreturned ▸ hr)

theorem of_step (hno : noClose a) (hstep : s.step hp a = some s') : Turned s s' a := by
  have hsame : ∀ j sid r, (j, sid, r) ∈ s.returned → (j, sid, r) ∈ s.returned ∨
      ∃ t, s.caller t = .woken j sid ∧ r = Conn.outcome ((s.conns j).obj sid) := fun _ _ _ => .inl
  cases step_happens hstep with
  | @existingConn t key _ =>
      obtain ⟨picked, conn, hpicks, _, hcaller, he, _⟩ := existingConn_picks s t key
      have hset : (s.existingConn t key).caller =
          Function.update s.caller t (.closing s.dead (.hand conn)) := by
        rw [he, State.setCaller_caller, hcaller]
      refine of_update hset ?_ nofun nofun ?_
      · rintro _ _ ⟨⟩
        exact .inr (.inl rfl)
      · rw [he]
        exact hpicks.returned ▸ hsame
  | @getConn t key _ =>
      refine of_update rfl ?_ nofun nofun hsame
      rintro _ _ ⟨⟩
      exact .inr (.inr ⟨key, rfl, rfl⟩)
  | close _ => cases hno
  | @closeOne t i todo next hc =>
      refine of_update rfl ?_ nofun nofun hsame
      rintro _ _ ⟨⟩
      exact .inl ⟨_, _, hc, List.subset_cons_self _ _⟩
  | @proceed t next _ =>
      rcases next with key | _ | ⟨_ | i⟩ <;> change Turned s (s.setCaller t _) _ <;>
        exact plain rfl rfl nofun nofun nofun
  | clear _ => cases hno
  | @scan t key _ =>
      obtain ⟨picked, hpicks, hcaller, hcase⟩ := scan_picks s t key
      rcases hcase with ⟨i, _, _, he⟩ | ⟨_, he⟩ | ⟨_, _, he⟩ <;> rw [he] <;>
        exact plain (congrArg (Function.update · t _) hcaller) hpicks.returned nofun nofun nofun
  | wake _ => exact plain rfl rfl nofun nofun nofun
  | connect outcome _ => cases outcome <;> exact plain rfl rfl nofun nofun nofun
  | acquire _ => exact plain rfl rfl nofun nofun nofun
  | insert _ => exact plain rfl rfl nofun nofun nofun
  | @leave t key conn _ =>
      rcases conn with _ | i <;> change Turned s (State.setCaller _ t _) _ <;>
        exact plain rfl rfl nofun nofun nofun
  | @send t i args _ =>
      obtain ⟨caller, he, hcaller⟩ := send_eq hp s t i args
      rw [he]
      rcases hcaller with rfl | ⟨sid, rfl, _⟩ <;> exact plain rfl rfl nofun nofun nofun
  | abandon _ => exact plain rfl rfl nofun nofun nofun
  | @done t i sid hc hd =>
      refine of_update rfl nofun ?_ nofun hsame
      rintro _ _ ⟨⟩
      exact ⟨hc, hd⟩
  | @expire t i sid hc =>
      refine of_update rfl nofun nofun ?_ hsame
      rintro _ _ ⟨⟩
      exact ⟨rfl, hc⟩
  | @finish t i sid hc =>
      refine of_update rfl nofun nofun nofun ?_
      intro j other r hr
      rcases List.mem_append.mp hr with hr | hr
      · exact .inl hr
      · cases List.mem_singleton.mp hr
        exact .inr ⟨t, hc, rfl⟩
  | drop _ => exact plain rfl rfl nofun nofun nofun
  | frame _ _ | eof _ _ | readTimeout _ _ =>
      exact ⟨fun t todo next hc => .inl ⟨todo, next, hc, List.Subset.refl _⟩, fun _ _ _ => .inl,
        fun _ _ _ => .inl, hsame⟩

end Turned

-- The server answers on stream `sid` of connection `i`, its request does not
-- time out, no write on the connection fails and nobody closes the session.
def serves (hp : Hpack ε δ) (i sid : Nat) (s : State ε δ) : Act → Prop
  | .frame j f => j = i → answers sid (s.received i) (s.conns i) (.frame f) ∧
      validBlock hp (s.conns i) (.frame f) = true
  | .eof j => j = i → answers sid (s.received i) (s.conns i) .eof
  | .connect _ (.h2 fate) => s.made = i → ∀ n, fate n = none
  | .expire t => s.caller t ≠ .pending i sid
  | .close _ | .clear _ => False
  | _ => True

-- No `_reap` takes the connection while the answer is incomplete, and every
-- frame on it is one that the connection parses.
def spares (i sid : Nat) (s : State ε δ) : Act → Prop
  | .getConn _ _ => i ∈ s.draining → sid < (s.conns i).nextId → ended sid (s.received i) = true
  | .frame j f => j = i → Serving.parsed sid (s.conns i) (.frame f) = true
  | _ => True

-- The stream is served, and nobody is about to close its connection under it.
structure Attended (hp : Hpack ε δ) (i sid : Nat) (s : State ε δ) : Prop where
  wired : Wired s
  unmade : s.made ≤ i → s.received i = []
  tracked : i < s.made → Tracked hp sid (s.conns i) (s.received i)
  spared : ∀ t todo next, s.caller t = .closing todo next → i ∈ todo →
    sid < (s.conns i).nextId → ended sid (s.received i) = true
  woken : ∀ t, s.caller t = .woken i sid → ended sid (s.received i) = true
  patient : ∀ t, s.caller t ≠ .expired i sid
  returned : ∀ r, (i, sid, r) ∈ s.returned →
    ended sid (s.received i) = true ∧ r = .ok (responseSent hp sid (s.received i))

namespace Attended

variable {hp : Hpack ε δ} {i sid : Nat} {s s' : State ε δ} {a : Act}

theorem start (hp : Hpack ε δ) (i sid maxConns : Nat) : Attended hp i sid (State.start hp maxConns) :=
  ⟨.start hp maxConns, fun _ => rfl, nofun, nofun, nofun, nofun, nofun⟩

theorem noClose_of_serves (h : serves hp i sid s a) : noClose a := by
  cases a with
  | close t | clear t => exact h.elim
  | _ => rfl

-- A stream that is over was opened and is served.
theorem serving (h : Attended hp i sid s) (hend : ended sid (s.received i) = true) :
    Serving hp sid (s.conns i) (s.received i) := by
  have hmade : i < s.made := by
    by_contra hno
    rw [h.unmade (Nat.le_of_not_lt hno)] at hend
    cases hend
  have htracked := h.tracked hmade
  apply htracked.serving
  by_contra hno
  rw [htracked.ended_false (Nat.le_of_not_lt hno)] at hend
  cases hend

-- The premises, as they are about the events on the connection.
theorem event_premises (h : Attended hp i sid s) (hserves : serves hp i sid s a)
    (hspares : spares i sid s a) {e : Event} (hcause : Causes s a i e) :
    answers sid (s.received i) (s.conns i) e ∧ validBlock hp (s.conns i) e ∧
      Serving.parsed sid (s.conns i) e ∧
      (sid < (s.conns i).nextId → Serving.undisturbed sid (s.received i) e) := by
  cases hcause with
  | frame f => exact ⟨(hserves rfl).1, (hserves rfl).2, hspares rfl, fun _ => trivial⟩
  | eof => exact ⟨hserves rfl, rfl, rfl, fun _ => trivial⟩
  | finish hc =>
      refine ⟨trivial, rfl, rfl, fun _ ho => ?_⟩
      exact h.woken _ (ho ▸ hc)
  | drop hc =>
      refine ⟨trivial, rfl, rfl, fun _ ho => ?_⟩
      exact absurd (ho ▸ hc) (h.patient _)
  | close hc => exact ⟨trivial, rfl, rfl, h.spared _ _ _ hc List.mem_cons_self⟩
  | _ => exact ⟨trivial, rfl, rfl, fun _ => trivial⟩

-- What the connection was given grows, and what was said on the stream is final
-- once it is over.
theorem received_step (h : Attended hp i sid s) (hserves : serves hp i sid s a)
    (hspares : spares i sid s a) (hstep : s.step hp a = some s')
    (hend : ended sid (s.received i) = true) :
    ended sid (s'.received i) = true ∧
      responseSent hp sid (s'.received i) = responseSent hp sid (s.received i) := by
  cases step_touches hstep i with
  | same _ hr =>
      rw [hr]
      exact ⟨hend, rfl⟩
  | event e hcause _ hr =>
      have ha := (h.event_premises hserves hspares hcause).1
      rw [hr]
      exact ⟨ended_mono hend e, responseSent_over (h.serving hend) ha hend⟩
  | made _ _ _ _ _ hr =>
      rw [hr]
      exact ⟨hend, rfl⟩

-- A connection that is still to be made is given nothing.
theorem unmade_step (h : Attended hp i sid s) (hstep : s.step hp a = some s') (hmade : s.made ≤ i) :
    s'.received i = [] := by
  have hnone := h.unmade hmade
  cases step_touches hstep i with
  | same _ hr => rw [hr, hnone]
  | event e hcause _ hr =>
      cases hcause with
      | frame f =>
          cases step_happens hstep with
          | frame hi _ => exact absurd hi (Nat.not_lt.mpr hmade)
      | _ => rw [hr, hnone]; rfl
  | made _ _ _ _ _ hr => rw [hr, hnone]

theorem tracked_step (h : Attended hp i sid s) (hodd : sid % 2 = 1) (hserves : serves hp i sid s a)
    (hspares : spares i sid s a) (hstep : s.step hp a = some s') (hmade : i < s'.made) :
    Tracked hp sid (s'.conns i) (s'.received i) := by
  by_cases hold : i < s.made
  · have htracked := h.tracked hold
    cases step_touches hstep i with
    | same hc hr => exact hc ▸ hr ▸ htracked
    | event e hcause hs hr =>
        obtain ⟨ha, hvalid, hparsed, hu⟩ := h.event_premises hserves hspares hcause
        rw [hr]
        exact htracked.step hodd ha hvalid hparsed hu hs
    | made _ _ _ hm => exact absurd (hm ▸ hold) (Nat.lt_irrefl _)
  · rcases made_step hstep with hm | ⟨t, fate, rfl, hm, hc, hr⟩
    · omega
    · obtain rfl : i = s.made := by omega
      rw [hc, hr, h.unmade (Nat.le_refl _)]
      exact .init hp (hserves rfl) hodd

-- A connection that waits to be closed opens no stream any more.
theorem opened_before (hstep : s.step hp a = some s') (hmade : i < s.made)
    (hclosed : (s.conns i).closed = true) (hopen : sid < (s'.conns i).nextId) :
    sid < (s.conns i).nextId := by
  cases step_touches hstep i with
  | same hc => exact hc ▸ hopen
  | event e _ hs =>
      rcases nextId_step hs with hn | ⟨hn, args, _, hc⟩
      · exact hn ▸ hopen
      · rcases (s.conns i).send_cases hp args with ⟨hsame, _⟩ | ⟨hno, _⟩
        · rw [hc, hsame] at hn
          omega
        · rw [hclosed] at hno
          cases hno
  | made _ _ _ hm => exact absurd (hm ▸ hmade) (Nat.lt_irrefl _)

theorem step (h : Attended hp i sid s) (hodd : sid % 2 = 1) (hserves : serves hp i sid s a)
    (hspares : spares i sid s a) (hstep : s.step hp a = some s') : Attended hp i sid s' := by
  have hno := noClose_of_serves hserves
  have hturned := Turned.of_step hno hstep
  have hmono := fun hend => h.received_step hserves hspares hstep hend
  refine ⟨h.wired.step hno hstep, ?_, h.tracked_step hodd hserves hspares hstep, ?_, ?_, ?_, ?_⟩
  · intro hmade
    exact h.unmade_step hstep (Nat.le_trans (h.wired.grows hstep).made hmade)
  · intro t todo next hc hm hopen
    rcases hturned.closing t todo next hc with ⟨old, prev, hold, hsub⟩ | rfl | ⟨key, rfl, rfl⟩
    · obtain ⟨hmade, hclosed⟩ := h.wired.todo t old prev hold i (hsub hm)
      have hopen' := opened_before hstep hmade hclosed hopen
      exact (hmono (h.spared t old prev hold (hsub hm) hopen')).1
    · -- the sweep only takes connections whose reader has ended
      obtain ⟨hmade, hclosed⟩ := h.wired.dead_closed i hm
      have hopen' := opened_before hstep hmade hclosed hopen
      refine (hmono ?_).1
      by_contra hend
      have hreading := (((h.tracked hmade).serving hopen').awaited (by simpa using hend)).1
      have hdead := (List.mem_filter.mp hm).2
      rw [hreading] at hdead
      cases hdead
    · obtain ⟨hmade, hclosed⟩ := h.wired.drained i hm
      have hopen' := opened_before hstep hmade hclosed hopen
      exact (hmono (hspares hm hopen')).1
  · intro t hc
    rcases hturned.woken t i sid hc with hold | ⟨hpending, hd⟩
    · exact (hmono (h.woken t hold)).1
    · have hmade := h.wired.held t i (by rw [hpending]; rfl)
      have hserving := (h.tracked hmade).serving (h.wired.waits t i sid hpending).2
      exact (hmono (hserving.done.symm.trans hd)).1
  · intro t hc
    rcases hturned.expired t i sid hc with hold | ⟨rfl, hpending⟩
    · exact h.patient t hold
    · exact hserves hpending
  · intro r hr
    rcases hturned.returned i sid r hr with hold | ⟨t, hc, rfl⟩
    · obtain ⟨hend, he⟩ := h.returned r hold
      exact ⟨(hmono hend).1, (hmono hend).2 ▸ he⟩
    · have hend := h.woken t hc
      refine ⟨(hmono hend).1, ?_⟩
      rw [(hmono hend).2]
      exact (h.serving hend).outcome

end Attended

-- A GOAWAY that spares a stream does not harm it, as long as no `_reap` takes
-- its connection: the reader goes on until the answer is complete, and the
-- request returns nothing but that answer.
theorem goaway_spares_stream (hp : Hpack ε δ) (maxConns i sid t : Nat) (g : Frame)
    (before after : List Act) (s₁ s₂ : State ε δ)
    (hserves : Transition.Meets (State.step hp) (serves hp i sid) (.start hp maxConns)
      (before ++ .frame i g :: after))
    (hspares : Transition.Meets (State.step hp) (spares i sid) (.start hp maxConns)
      (before ++ .frame i g :: after))
    (hbefore : Transition.run (State.step hp) (.start hp maxConns) before = some s₁)
    (hopen : s₁.caller t = .pending i sid)
    (_hgoaway : g.ftype = .goaway ∧ sid ≤ Conn.goawayLastSid g)
    (hafter : Transition.run (State.step hp) s₁ (.frame i g :: after) = some s₂) :
    (ended sid (s₂.received i) = false →
        (s₂.conns i).reading = true ∧ ((s₂.conns i).obj sid).done = false) ∧
      (ended sid (s₂.received i) = true → ((s₂.conns i).obj sid).done = true ∧
        Conn.outcome ((s₂.conns i).obj sid) = .ok (responseSent hp sid (s₂.received i))) ∧
      ∀ r, (i, sid, r) ∈ s₂.returned → r = .ok (responseSent hp sid (s₂.received i)) := by
  have hwired : Wired s₁ := Transition.invariant Wired
    (fun s a next h hs hstep => h.step (Attended.noClose_of_serves hs) hstep) (.start hp maxConns)
    hserves.take hbefore
  obtain ⟨hodd, hlt⟩ := hwired.waits t i sid hopen
  have hmade : i < s₁.made := hwired.held t i (by rw [hopen]; rfl)
  have hattended : ∀ {acts : List Act} {s : State ε δ},
      Transition.Meets (State.step hp) (serves hp i sid) (.start hp maxConns) acts →
      Transition.Meets (State.step hp) (spares i sid) (.start hp maxConns) acts →
      Transition.run (State.step hp) (.start hp maxConns) acts = some s → Attended hp i sid s :=
    fun hs hp' hrun => Transition.invariant (Attended hp i sid)
      (fun s a next h hok hstep => h.step hodd hok.1 hok.2 hstep) (.start hp i sid maxConns) (hs.and hp') hrun
  have hrun : Transition.run (State.step hp) (.start hp maxConns) (before ++ .frame i g :: after) =
      some s₂ := by
    rw [Transition.run_append, hbefore]
    exact hafter
  have hend := hattended hserves hspares hrun
  have hgrow := Transition.invariant (fun s => Wired s ∧ i < s.made ∧ sid < (s.conns i).nextId)
    (fun s a next h hs hstep => by
      have hg := h.1.grows hstep
      exact ⟨h.1.step (Attended.noClose_of_serves hs) hstep, Nat.lt_of_lt_of_le h.2.1 hg.made,
        Nat.lt_of_lt_of_le h.2.2 (hg.nextId i h.2.1)⟩)
    ⟨hwired, hmade, hlt⟩ (hserves.drop hbefore) hafter
  have hserving := (hend.tracked hgrow.2.1).serving hgrow.2.2
  refine ⟨?_, ?_, ?_⟩
  · intro hno
    exact ⟨(hserving.awaited hno).1, hserving.done.trans hno⟩
  · intro hover
    exact ⟨hserving.done.trans hover, hserving.outcome⟩
  · intro r hr
    exact (hend.returned r hr).2

def goaway (last : Nat) : Frame := ⟨.goaway, 0, 0, packU32 last ++ packU32 0⟩

def calmAnswer : List Act := [.readTimeout 0, .frame 0 (answer 1 [0x88]), .done 0, .pop 0]

theorem goaway_spares_stream_calm :
    ∃ s, Transition.run (State.step recorder) (.start recorder 6)
        (firstRequest ++ .frame 0 (goaway 1) :: calmAnswer) = some s ∧
      (s.conns 0).closed = true ∧ s.returned = [(0, 1, .ok ⟨some 200, [], []⟩)] ∧
      ∀ r, (0, 1, r) ∈ s.returned → r = .ok (responseSent recorder 1 (s.received 0)) := by
  refine ⟨_, rfl, by decide, by decide, ?_⟩
  refine (goaway_spares_stream recorder 6 0 1 0 (goaway 1) firstRequest calmAnswer _ _ ?_ ?_ rfl rfl
    (by decide) rfl).2.2
  · refine ⟨trivial, trivial, trivial, fun _ _ => rfl, trivial, trivial, trivial, trivial,
      fun _ => ⟨⟨by decide, by decide, by decide, by decide, nofun, fun _ => by decide⟩, rfl⟩, trivial,
      fun _ => ⟨⟨by decide, by decide, by decide, fun _ _ => by decide, nofun, fun _ => by decide⟩,
        by decide⟩, trivial, trivial, trivial⟩
  · exact ⟨nofun, trivial, trivial, trivial, trivial, trivial, trivial, trivial, fun _ => by decide, trivial,
      fun _ => by decide, trivial, trivial, trivial⟩

def otherKey : Key := ("b.example", 443, none)

-- The first field of the answer has come; then a request to another host reaps
-- the evicted connection, and the next pause ends its reader.
def reapedAnswer : List Act :=
  [.frame 0 ⟨.headers, F_END_HEADERS, 1, [0x88]⟩, .existingConn 1 originKey, .closeNext 1,
    .getConn 1 otherKey, .closeNext 1, .readTimeout 0, .done 0, .pop 0]

theorem reaped_connection_fails_stream :
    Transition.Meets (State.step recorder) (serves recorder 0 1) (.start recorder 6)
        (firstRequest ++ .frame 0 (goaway 1) :: reapedAnswer) ∧
      ∃ s, Transition.run (State.step recorder) (.start recorder 6)
          (firstRequest ++ .frame 0 (goaway 1) :: reapedAnswer) = some s ∧
        (s.conns 0).reading = false ∧ ended 1 (s.received 0) = false ∧
        s.returned = [(0, 1, .error (.connectionError "connection closed by peer"))] := by
  constructor
  · refine ⟨trivial, trivial, trivial, fun _ _ => rfl, trivial, trivial, trivial, trivial,
      fun _ => ⟨⟨by decide, by decide, by decide, by decide, nofun, fun _ => by decide⟩, rfl⟩,
      fun _ => ⟨⟨by decide, by decide, by decide, fun _ _ => by decide, nofun, fun _ => by decide⟩,
        by decide⟩, trivial, trivial, trivial, trivial, trivial, trivial, trivial, trivial⟩
  · exact ⟨_, rfl, by decide, by decide, by decide⟩

end NeverFox.Pool
