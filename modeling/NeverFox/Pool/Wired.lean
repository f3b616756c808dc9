import NeverFox.H2.Serving
import NeverFox.Pool.Lemmas

namespace NeverFox.Pool

open NeverFox.H2 NeverFox.Client

variable {ε δ : Type}

-- How a step of the session comes to be an event on one of its connections.
inductive Causes (s : State ε δ) : Act → Nat → Event → Prop
  | frame (i : Nat) (f : Frame) : Causes s (.frame i f) i (.frame f)
  | eof (i : Nat) : Causes s (.eof i) i .eof
  | readTimeout (i : Nat) : Causes s (.readTimeout i) i .readTimeout
  | acquire (a : Act) (i : Nat) : Causes s a i .acquire
  | send {t i : Nat} (args : SendArgs) (hc : s.caller t = .holding i) :
      Causes s (.send t args) i (.send args)
  | rst {t i sid : Nat} (hc : s.caller t = .pending i sid) : Causes s (.expire t) i (.rst sid)
  | finish {t i sid : Nat} (hc : s.caller t = .woken i sid) : Causes s (.pop t) i (.pop sid)
  | drop {t i sid : Nat} (hc : s.caller t = .expired i sid) : Causes s (.pop t) i (.pop sid)
  | close {t i : Nat} {todo : List Nat} {next : Next} (hc : s.caller t = .closing (i :: todo) next) :
      Causes s (.closeNext t) i .close

-- A connection that a step leaves alone, that takes one event, or that is made.
inductive Touched (hp : Hpack ε δ) (s s' : State ε δ) (a : Act) (j : Nat) : Prop
  | same (hc : s'.conns j = s.conns j) (hr : s'.received j = s.received j)
  | event (e : Event) (hcause : Causes s a j e) (hs : H2.step hp (s.conns j) e = some (s'.conns j))
      (hr : s'.received j = s.received j ++ framesOf [e])
  | made (t : Nat) (fate : Nat → Option Nat) (ha : a = .connect t (.h2 fate)) (hj : j = s.made)
      (hc : s'.conns j = .init hp fate) (hr : s'.received j = s.received j)

namespace Touched

variable {hp : Hpack ε δ} {s s' : State ε δ} {a : Act} {j : Nat}

-- One connection takes one event that is no frame.
theorem of_update {i : Nat} {c : Conn ε δ} (e : Event) (hcause : Causes s a i e)
    (hs : H2.step hp (s.conns i) e = some c) (hc : s'.conns = Function.update s.conns i c)
    (hr : s'.received = s.received) (hframes : framesOf [e] = []) : Touched hp s s' a j := by
  by_cases hj : j = i
  · subst hj
    refine .event e hcause ?_ ?_
    · rw [hc, Function.update_self]
      exact hs
    · rw [hr, hframes, List.append_nil]
  · exact .same (by rw [hc, Function.update_of_ne hj]) (by rw [hr])

theorem of_picks (h : Picks s s') : Touched hp s s' a j := by
  rcases h.conns j with hc | hc
  · exact .same hc (by rw [h.received])
  · exact .event .acquire (.acquire a j) (by rw [hc]; rfl) (by rw [h.received]; simp [framesOf])

end Touched

theorem step_touches {hp : Hpack ε δ} {s s' : State ε δ} {a : Act} (hstep : s.step hp a = some s')
    (j : Nat) : Touched hp s s' a j := by
  cases step_happens hstep with
  | @existingConn t key _ =>
      obtain ⟨picked, conn, hpicks, _, _, he, _⟩ := existingConn_picks s t key
      exact .of_picks (he ▸ hpicks.setCaller t _)
  | @scan t key _ =>
      obtain ⟨picked, hpicks, _, hcase⟩ := scan_picks s t key
      rcases hcase with ⟨_, _, _, he⟩ | ⟨_, he⟩ | ⟨_, _, he⟩ <;> exact .of_picks (he ▸ hpicks.setCaller t _)
  | closeOne hc => exact .of_update .close (.close hc) rfl rfl rfl rfl
  | @proceed t next _ =>
      rcases next with _ | _ | ⟨_ | _⟩ <;> exact .same rfl rfl
  | connect outcome _ =>
      cases outcome with
      | failed | http1 => exact .same rfl rfl
      | h2 fate =>
          by_cases hj : j = s.made
          · refine .made _ fate rfl hj ?_ rfl
            subst hj
            exact Function.update_self ..
          · exact .same (Function.update_of_ne hj _ _) rfl
  | acquire _ => exact .of_update .acquire (.acquire _ _) rfl rfl rfl rfl
  | @leave t key conn _ => cases conn <;> exact .same rfl rfl
  | @send t i args hc =>
      obtain ⟨caller, he, _⟩ := send_eq hp s t i args
      rw [he]
      exact .of_update (.send args) (.send args hc) rfl rfl rfl rfl
  | expire hc => exact .of_update (.rst _) (.rst hc) rfl rfl rfl rfl
  | finish hc => exact .of_update (.pop _) (.finish hc) rfl rfl rfl rfl
  | drop hc => exact .of_update (.pop _) (.drop hc) rfl rfl rfl rfl
  | @frame i f c _ hs =>
      by_cases hj : j = i
      · subst hj
        refine .event (.frame f) (.frame j f) ?_ ?_
        · rw [hs]
          exact congrArg some (Function.update_self j c s.conns).symm
        · exact Function.update_self ..
      · exact .same (Function.update_of_ne hj _ _) (Function.update_of_ne hj _ _)
  | eof _ hs => exact .of_update .eof (.eof _) hs rfl rfl rfl
  | readTimeout _ hs => exact .of_update .readTimeout (.readTimeout _) hs rfl rfl rfl
  | _ => exact .same rfl rfl

-- The connection a caller has in hand.
def Caller.conn : Caller → Option Nat
  | .closing _ (.hand conn) | .leaving _ conn => conn
  | .fresh _ i | .acquired _ i | .holding i | .pending i _ | .woken i _ | .expired i _ => some i
  | _ => none

-- No call of Session.close takes part.
def noClose : Act → Bool
  | .close _ | .clear _ => false
  | _ => true

-- A connection that somebody could come by has been made.
structure Known (s : State ε δ) : Prop where
  pooled : ∀ key, ∀ j ∈ s.pooled key, j < s.made
  held : ∀ t j, (s.caller t).conn = some j → j < s.made

namespace Known

variable {hp : Hpack ε δ} {s s' : State ε δ}

theorem start (hp : Hpack ε δ) (maxConns : Nat) : Known (State.start hp maxConns) := ⟨nofun, nofun⟩

theorem move (h : Known s) {t : Nat} {caller : Caller} (hmade : s.made ≤ s'.made)
    (hcaller : s'.caller = Function.update s.caller t caller)
    (hpooled : ∀ key, ∀ j ∈ s'.pooled key, j < s'.made)
    (hheld : ∀ j, caller.conn = some j → j < s'.made) : Known s' := by
  refine ⟨hpooled, ?_⟩
  intro other j hc
  rw [hcaller] at hc
  by_cases ho : other = t
  · subst ho
    rw [Function.update_self] at hc
    exact hheld j hc
  · rw [Function.update_of_ne ho] at hc
    exact Nat.lt_of_lt_of_le (h.held other j hc) hmade

theorem move_picks (h : Known s) {picked : State ε δ} (hpicks : Picks s picked)
    (hcaller : picked.caller = s.caller) {t : Nat} {caller : Caller}
    (hheld : ∀ j, caller.conn = some j → j < s.made) : Known (picked.setCaller t caller) := by
  have hset := hpicks.setCaller t caller
  refine h.move (Nat.le_of_eq hset.made.symm) (State.setCaller_update hcaller t _) ?_ ?_
  · intro key j hj
    exact hset.made ▸ h.pooled key j ((hset.pooled key).subset hj)
  · intro j hj
    exact hset.made ▸ hheld j hj

theorem step (h : Known s) {a : Act} (hstep : s.step hp a = some s') : Known s' := by
  cases step_happens hstep with
  | @existingConn t key _ =>
      obtain ⟨picked, conn, hpicks, _, hcaller, he, hconn⟩ := existingConn_picks s t key
      rw [he]
      exact h.move_picks hpicks hcaller fun j hj => h.pooled key j (hconn j hj)
  | @scan t key _ =>
      obtain ⟨picked, hpicks, hcaller, hcase⟩ := scan_picks s t key
      rcases hcase with ⟨i, hm, _, he⟩ | ⟨_, he⟩ | ⟨_, _, he⟩ <;> rw [he]
      · exact h.move_picks hpicks hcaller (by rintro j ⟨⟩; exact h.pooled key i hm)
      · exact h.move_picks hpicks hcaller (by rintro j ⟨⟩)
      · exact h.move_picks hpicks hcaller (by rintro j ⟨⟩)
  | @closeOne t i todo next hc =>
      refine h.move (Nat.le_refl _) rfl h.pooled fun j hj => h.held t j ?_
      rw [hc]
      cases next <;> exact hj
  | @proceed t next hc =>
      rcases next with key | _ | ⟨_ | i⟩ <;> change Known (s.setCaller t _) <;>
        refine h.move (Nat.le_refl _) rfl h.pooled ?_ <;> rintro j ⟨⟩
      exact h.held t i (by rw [hc]; rfl)
  | clear _ =>
      refine h.move (Nat.le_refl _) rfl ?_ (by rintro j ⟨⟩)
      intro key j hj
      simp [State.pooled, State.setCaller] at hj
  | @connect t key outcome _ =>
      cases outcome with
      | failed | http1 => exact h.move (Nat.le_refl _) rfl h.pooled (by rintro j ⟨⟩)
      | h2 fate =>
          refine h.move (Nat.le_succ _) rfl ?_ (by rintro j ⟨⟩; exact Nat.lt_succ_self _)
          intro other j hj
          exact Nat.lt_succ_of_lt (h.pooled other j hj)
  | @insert t i key hc =>
      have hm : i < s.made := h.held t i (by rw [hc]; rfl)
      refine h.move (Nat.le_refl _) rfl ?_ (by rintro j ⟨⟩; exact hm)
      intro other j hj
      rcases State.mem_insert_pooled hj with hold | ⟨_, rfl⟩
      · exact h.pooled other j hold
      · exact hm
  | @leave t key conn hc =>
      cases conn with
      | none => exact h.move (Nat.le_refl _) rfl h.pooled (by rintro j ⟨⟩)
      | some i =>
          refine h.move (Nat.le_refl _) rfl h.pooled ?_
          rintro j ⟨⟩
          exact h.held t i (by rw [hc]; rfl)
  | @send t i args hc =>
      have hm : i < s.made := h.held t i (by rw [hc]; rfl)
      obtain ⟨caller, he, hcaller⟩ := send_eq hp s t i args
      rw [he]
      refine h.move (Nat.le_refl _) rfl h.pooled ?_
      rcases hcaller with rfl | ⟨sid, rfl, _⟩ <;> rintro j ⟨⟩
      exact hm
  | @acquire t i key hc | @done t i sid hc _ | @expire t i sid hc =>
      refine h.move (Nat.le_refl _) rfl h.pooled ?_
      rintro j ⟨⟩
      exact h.held t i (by rw [hc]; rfl)
  | frame _ _ | eof _ _ | readTimeout _ _ =>
      exact h.move (Nat.le_refl _) (Function.update_eq_self 0 s.caller).symm h.pooled (h.held 0)
  | _ => exact h.move (Nat.le_refl _) rfl h.pooled (by rintro j ⟨⟩)

end Known

-- Every connection that is referred to has been made, those to be closed are
-- marked closed, and a request waits on a stream of its connection.
structure Wired (s : State ε δ) : Prop where
  live : ∀ j, (s.conns j).Live
  odd : ∀ j, (s.conns j).nextId % 2 = 1
  pooled : ∀ key, ∀ j ∈ s.pooled key, j < s.made
  drained : ∀ j ∈ s.draining, j < s.made ∧ (s.conns j).closed = true
  todo : ∀ t todo next, s.caller t = .closing todo next →
    ∀ j ∈ todo, j < s.made ∧ (s.conns j).closed = true
  held : ∀ t j, (s.caller t).conn = some j → j < s.made
  waits : ∀ t j sid, s.caller t = .pending j sid → sid % 2 = 1 ∧ sid < (s.conns j).nextId

-- What no step undoes on the connections.
structure Grows (s s' : State ε δ) : Prop where
  live : ∀ j, (s'.conns j).Live
  odd : ∀ j, (s'.conns j).nextId % 2 = 1
  closed : ∀ j < s.made, (s.conns j).closed = true → (s'.conns j).closed = true
  nextId : ∀ j < s.made, (s.conns j).nextId ≤ (s'.conns j).nextId
  made : s.made ≤ s'.made

-- A connection is added by a connect only.
theorem made_step {hp : Hpack ε δ} {s s' : State ε δ} {a : Act} (hstep : s.step hp a = some s') :
    s'.made = s.made ∨ ∃ t fate, a = .connect t (.h2 fate) ∧ s'.made = s.made + 1 ∧
      s'.conns s.made = .init hp fate ∧ s'.received = s.received := by
  cases step_happens hstep with
  | @existingConn t key _ =>
      obtain ⟨picked, conn, hpicks, _, _, he, _⟩ := existingConn_picks s t key
      rw [he]
      exact .inl hpicks.made
  | @scan t key _ =>
      obtain ⟨picked, hpicks, _, hcase⟩ := scan_picks s t key
      rcases hcase with ⟨_, _, _, he⟩ | ⟨_, he⟩ | ⟨_, _, he⟩ <;> rw [he] <;> exact .inl hpicks.made
  | @proceed t next _ => rcases next with _ | _ | ⟨_ | _⟩ <;> exact .inl rfl
  | @connect t key outcome _ =>
      cases outcome with
      | failed | http1 => exact .inl rfl
      | h2 fate => exact .inr ⟨t, fate, rfl, rfl, Function.update_self .., rfl⟩
  | @leave t key conn _ => cases conn <;> exact .inl rfl
  | @send t i args _ =>
      obtain ⟨caller, he, _⟩ := send_eq hp s t i args
      rw [he]
      exact .inl rfl
  | _ => exact .inl rfl

theorem Wired.grows {hp : Hpack ε δ} {s s' : State ε δ} {a : Act} (h : Wired s)
    (hstep : s.step hp a = some s') : Grows s s' := by
  have htouch := step_touches hstep
  refine ⟨?_, ?_, ?_, ?_, ?_⟩
  · intro j
    cases htouch j with
    | same hc => exact hc ▸ h.live j
    | event e _ hs => exact (h.live j).step hs
    | made t fate _ _ hc => exact hc ▸ Conn.live_init hp fate
  · intro j
    have hodd := h.odd j
    cases htouch j with
    | same hc => exact hc ▸ hodd
    | event e _ hs =>
        have hn := nextId_step hs
        omega
    | made t fate _ _ hc => rw [hc]; rfl
  · intro j hj hclosed
    cases htouch j with
    | same hc => exact hc ▸ hclosed
    | event e _ hs => exact Conn.closed_step (h.live j) hs hclosed
    | made t fate _ hm => exact absurd (hm ▸ hj) (Nat.lt_irrefl _)
  · intro j hj
    cases htouch j with
    | same hc => rw [hc]
    | event e _ hs =>
        have hn := nextId_step hs
        omega
    | made t fate _ hm => exact absurd (hm ▸ hj) (Nat.lt_irrefl _)
  · rcases made_step hstep with hm | ⟨_, _, _, hm, _⟩ <;> omega

namespace Wired

variable {hp : Hpack ε δ} {s s' : State ε δ}

theorem start (hp : Hpack ε δ) (maxConns : Nat) : Wired (State.start hp maxConns) :=
  ⟨fun _ => Conn.live_init hp _, fun _ => rfl, nofun, nofun, nofun, nofun, nofun⟩

theorem known (h : Wired s) : Known s := ⟨h.pooled, h.held⟩

-- One caller moves on.
theorem move (h : Wired s) (hg : Grows s s') (hknown : Known s') {t : Nat} {caller : Caller}
    (hcaller : s'.caller = Function.update s.caller t caller)
    (hdrained : ∀ j ∈ s'.draining, j < s.made ∧ (s.conns j).closed = true)
    (htodo : ∀ todo next, caller = .closing todo next →
      ∀ j ∈ todo, j < s.made ∧ (s.conns j).closed = true)
    (hwaits : ∀ j sid, caller = .pending j sid → sid % 2 = 1 ∧ sid < (s'.conns j).nextId) :
    Wired s' := by
  refine ⟨hg.live, hg.odd, hknown.pooled, ?_, ?_, hknown.held, ?_⟩
  · intro j hj
    obtain ⟨hm, hc⟩ := hdrained j hj
    exact ⟨Nat.lt_of_lt_of_le hm hg.made, hg.closed j hm hc⟩
  · intro other todo next hc j hj
    rw [hcaller] at hc
    have hold : j < s.made ∧ (s.conns j).closed = true := by
      by_cases ho : other = t
      · subst ho
        rw [Function.update_self] at hc
        exact htodo todo next hc j hj
      · rw [Function.update_of_ne ho] at hc
        exact h.todo other todo next hc j hj
    exact ⟨Nat.lt_of_lt_of_le hold.1 hg.made, hg.closed j hold.1 hold.2⟩
  · intro other j sid hc
    rw [hcaller] at hc
    by_cases ho : other = t
    · subst ho
      rw [Function.update_self] at hc
      exact hwaits j sid hc
    · rw [Function.update_of_ne ho] at hc
      obtain ⟨hodd, hlt⟩ := h.waits other j sid hc
      have hm : j < s.made := h.held other j (by rw [hc]; rfl)
      exact ⟨hodd, Nat.lt_of_lt_of_le hlt (hg.nextId j hm)⟩

-- What drains behind a section that picks had drained, or was evicted.
theorem drained_picks (h : Wired s) {picked : State ε δ} (hp : Picks s picked) :
    ∀ j ∈ picked.draining, j < s.made ∧ (s.conns j).closed = true := by
  intro j hj
  rcases hp.draining j hj with hold | ⟨⟨key, hm⟩, hc⟩
  · exact h.drained j hold
  · exact ⟨h.pooled key j hm, hc⟩

theorem move_picks (h : Wired s) {picked : State ε δ} (hpicks : Picks s picked)
    (hcaller : picked.caller = s.caller) {t : Nat} {caller : Caller}
    (hg : Grows s (picked.setCaller t caller)) (hknown : Known (picked.setCaller t caller))
    (htodo : ∀ todo next, caller = .closing todo next →
      ∀ j ∈ todo, j < s.made ∧ (s.conns j).closed = true)
    (hwaits : ∀ j sid, caller ≠ .pending j sid) : Wired (picked.setCaller t caller) :=
  h.move hg hknown (State.setCaller_update hcaller t caller) (h.drained_picks (hpicks.setCaller t caller))
    htodo fun j sid hc => absurd hc (hwaits j sid)

-- The connections under a reader that has ended are marked closed.
theorem dead_closed (h : Wired s) : ∀ j ∈ s.dead, j < s.made ∧ (s.conns j).closed = true :=
  fun j hj => h.drained j (List.mem_of_mem_filter hj)

theorem step (h : Wired s) {a : Act} (hno : noClose a) (hstep : s.step hp a = some s') : Wired s' := by
  have hg := h.grows hstep
  have hk := h.known.step hstep
  cases step_happens hstep with
  | @existingConn t key _ =>
      obtain ⟨picked, conn, hpicks, _, hcaller, he, _⟩ := existingConn_picks s t key
      rw [he] at hg hk ⊢
      refine h.move_picks hpicks hcaller hg hk ?_ nofun
      rintro _ _ ⟨⟩
      exact h.dead_closed
  | getConn key _ =>
      refine h.move hg hk rfl nofun ?_ nofun
      rintro _ _ ⟨⟩
      exact h.drained
  | close _ => cases hno
  | @closeOne t i todo next hc =>
      refine h.move hg hk rfl h.drained ?_ nofun
      rintro _ _ ⟨⟩ j hj
      exact h.todo t _ _ hc j (List.mem_cons_of_mem _ hj)
  | @proceed t next hc =>
      rcases next with key | _ | ⟨_ | i⟩ <;> exact h.move hg hk rfl h.drained nofun nofun
  | clear _ => cases hno
  | @scan t key _ =>
      obtain ⟨picked, hpicks, hcaller, hcase⟩ := scan_picks s t key
      rcases hcase with ⟨i, _, _, he⟩ | ⟨_, he⟩ | ⟨_, _, he⟩ <;> rw [he] at hg hk ⊢ <;>
        exact h.move_picks hpicks hcaller hg hk nofun nofun
  | @connect t key outcome _ =>
      cases outcome <;> exact h.move hg hk rfl h.drained nofun nofun
  | @leave t key conn hc =>
      cases conn <;> exact h.move hg hk rfl h.drained nofun nofun
  | @send t i args hc =>
      have hodd := h.odd i
      obtain ⟨caller, he, hcaller⟩ := send_eq hp s t i args
      rw [he] at hg hk ⊢
      rcases hcaller with rfl | ⟨sid, rfl, hok⟩
      · exact h.move hg hk rfl h.drained nofun nofun
      · refine h.move hg hk rfl h.drained nofun ?_
        rintro j _ ⟨⟩
        rcases (s.conns i).send_cases hp args with ⟨_, _, _, exc, herror⟩ | ⟨_, hn, _, _, hsid⟩
        · rw [herror] at hok
          cases hok
        · obtain rfl := hsid sid hok
          refine ⟨hodd, ?_⟩
          rw [State.setCaller_conns, State.setConn_conns, Function.update_self, hn]
          omega
  | wake _ | acquire _ | insert _ | abandon _ | done _ _ | expire _ | finish _ | drop _ =>
      exact h.move hg hk rfl h.drained nofun nofun
  | frame _ _ | eof _ _ | readTimeout _ _ =>
      exact h.move hg hk (Function.update_eq_self 0 s.caller).symm h.drained (h.todo 0)
        fun j sid hc => ⟨(h.waits 0 j sid hc).1, Nat.lt_of_lt_of_le (h.waits 0 j sid hc).2
          (hg.nextId j (h.held 0 j (by rw [hc]; rfl)))⟩

end Wired

end NeverFox.Pool
