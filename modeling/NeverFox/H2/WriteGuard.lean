import NeverFox.H2.SingleFree
import NeverFox.Lib.Tally

namespace NeverFox.H2.Lifetime

open Tally

variable {ε δ : Type}

-- A caller that is out to send, from its acquire() up to its release().
def Caller.holds : Caller → Bool
  | .acquired | .checked _ _ | .writing _ | .sent => true
  | _ => false

-- A caller inside `_rst`, past its check of the flags.
def Caller.resets : Caller → Bool
  | .resetting _ | .rstWriting _ => true
  | _ => false

def Caller.writes : Caller → Bool
  | .writing _ | .rstWriting _ => true
  | _ => false

-- A write on the connection has begun and not ended.
def Writing (s : State ε δ) : Prop :=
  (∃ t, (s.caller t).writes = true) ∨ ∃ f, s.reader = .replying f

-- A step in which Transport.close shuts down, frees or drops the handle.
def takesEffect (s : State ε δ) : Act → Prop
  | .reader => ∃ back pc, s.reader = .closing back pc ∧ pc.effect = true
  | .closer t => ∃ pc, s.caller t = .closing pc ∧ pc.effect = true
  | _ => False

-- The polls of `_teardown_transport` end here, with the handle still there.
def endsWait (s : State ε δ) : Pc → Prop
  | .poll 0 => s.conn.tp.live = true
  | .poll (_ + 1) => s.conn.tp.live = true ∧ s.conn.refs = 0
  | _ => False

-- The wait ends with all references back and nobody inside `_rst`.
def drained (s : State ε δ) (pc : Pc) : Prop :=
  endsWait s pc → s.conn.refs = 0 ∧ ∀ t, (s.caller t).resets = false

-- No wait ends otherwise, and no new connection refuses its first caller.
def sparesWriters (s : State ε δ) : Act → Prop
  | .acquireFresh _ => s.conn.acquirable = true
  | .reader => ∀ back pc, s.reader = .closing back pc → drained s pc
  | .closer t => ∀ pc, s.caller t = .closing pc → drained s pc
  | _ => True

-- The wait is over: the handle is gone, or the reader goes on to close it.
def Over (s : State ε δ) : Prop :=
  s.conn.tp.live = false ∨ ∃ back pc, s.reader = .closing back pc ∧ (pc = .test ∨ pc.effect = true)

-- Nobody is left to write by then, and nobody gets on the connection any more.
structure Guarded (s : State ε δ) : Prop where
  counted : tally s.caller (fun caller => caller.holds = true) ≤ (s.conn.refs : ℕ∞)
  shut : Over s → s.conn.closed = true ∧ ∀ t, (s.caller t).holds = false ∧ (s.caller t).resets = false
  own : ∀ back pc, s.reader = .closing back pc → pc ≠ .mark → s.conn.closed = true

theorem closed_of_acquirable {c : Conn ε δ} (h : c.acquirable = true) : c.closed = false := by
  simp only [Conn.acquirable, Bool.not_eq_true', Bool.or_eq_false_iff] at h
  exact h.1.1.1

namespace Guarded

variable {hp : Hpack ε δ} {s s' : State ε δ}

theorem start (hp : Hpack ε δ) (fate : Nat → Option Nat) : Guarded (State.start hp fate) := by
  refine ⟨?_, ?_, by rintro _ _ ⟨⟩⟩
  · have hnone : tally (State.start hp fate).caller (fun caller => caller.holds = true) = 0 :=
      tally_none fun t => by simp [State.start, Caller.holds]
    simp [hnone]
  · rintro (hl | ⟨_, _, hr, _⟩)
    · cases hl
    · cases hr

theorem not_over (h : Guarded s) {t : Nat}
    (ht : (s.caller t).holds = true ∨ (s.caller t).resets = true ∨ s.conn.closed = false) : ¬Over s := by
  intro hover
  obtain ⟨hclosed, hnone⟩ := h.shut hover
  rcases ht with ht | ht | ht
  · rw [(hnone t).1] at ht
    cases ht
  · rw [(hnone t).2] at ht
    cases ht
  · rw [hclosed] at ht
    cases ht

-- One caller moves on; while the wait is over it neither holds nor resets.
theorem move (h : Guarded s) {t : Nat} {caller : Caller}
    (hcaller : s'.caller = Function.update s.caller t caller)
    (hcounted : tally s'.caller (fun caller => caller.holds = true) ≤ (s'.conn.refs : ℕ∞))
    (hreader : s'.reader = s.reader) (hlive : s'.conn.tp.live = s.conn.tp.live)
    (hclosed : s.conn.closed = true → s'.conn.closed = true)
    (hnew : Over s → caller.holds = false ∧ caller.resets = false) : Guarded s' := by
  have hback : Over s' → Over s := by
    unfold Over
    rw [hreader, hlive]
    exact id
  refine ⟨hcounted, fun hover => ?_, ?_⟩
  · obtain ⟨hc, hnone⟩ := h.shut (hback hover)
    refine ⟨hclosed hc, fun other => ?_⟩
    rw [hcaller]
    by_cases ho : other = t
    · subst ho
      rw [Function.update_self]
      exact hnew (hback hover)
    · rw [Function.update_of_ne ho]
      exact hnone other
  · intro back pc hr hpc
    rw [hreader] at hr
    exact hclosed (h.own back pc hr hpc)

-- Most moves leave the references and the count as they are.
theorem stay (h : Guarded s) {t : Nat} {caller : Caller}
    (hcaller : s'.caller = Function.update s.caller t caller)
    (hholds : caller.holds = (s.caller t).holds) (hrefs : s'.conn.refs = s.conn.refs)
    (hreader : s'.reader = s.reader) (hlive : s'.conn.tp.live = s.conn.tp.live)
    (hclosed : s.conn.closed = true → s'.conn.closed = true)
    (hnew : Over s → caller.holds = false ∧ caller.resets = false) : Guarded s' := by
  refine h.move hcaller ?_ hreader hlive hclosed hnew
  rw [hcaller, hrefs, tally_stay (by rw [hholds])]
  exact h.counted

theorem acquire (h : Guarded s) {t : Nat} (hc : s.caller t = .idle) (ha : s.conn.acquirable = true) :
    Guarded ({ s with conn := s.conn.acquire }.setCaller t .acquired) := by
  have hacquire : s.conn.acquire = { s.conn with refs := s.conn.refs + 1 } := if_pos ha
  rw [hacquire]
  refine h.move rfl ?_ rfl rfl id fun hover => ?_
  · have henter : tally (Function.update s.caller t .acquired) (fun caller => caller.holds = true) =
        tally s.caller (fun caller => caller.holds = true) + 1 :=
      tally_enter (by simp [hc, Caller.holds]) rfl
    rw [State.setCaller, henter]
    exact_mod_cast add_le_add_left h.counted 1
  · exact absurd hover (h.not_over (t := t) (.inr (.inr (closed_of_acquirable ha))))

-- What a caller does once it is out to send cannot be past the wait.
theorem sends (h : Guarded s) {t : Nat} {caller : Caller} (hold : (s.caller t).holds = true)
    (hcaller : s'.caller = Function.update s.caller t caller) (hnew : caller.holds = true)
    (hrefs : s'.conn.refs = s.conn.refs) (hreader : s'.reader = s.reader)
    (hlive : s'.conn.tp.live = s.conn.tp.live)
    (hclosed : s.conn.closed = true → s'.conn.closed = true) : Guarded s' :=
  h.stay hcaller (hnew.trans hold.symm) hrefs hreader hlive hclosed
    fun hover => absurd hover (h.not_over (.inl hold))

-- A caller stops sending, with its reference or without.
theorem leave (h : Guarded s) {t : Nat} (hold : (s.caller t).holds = true)
    (hcaller : s'.caller = Function.update s.caller t .idle)
    (hrefs : s.conn.refs ≤ s'.conn.refs + 1) (hreader : s'.reader = s.reader)
    (hlive : s'.conn.tp.live = s.conn.tp.live)
    (hclosed : s.conn.closed = true → s'.conn.closed = true) : Guarded s' := by
  refine h.move hcaller ?_ hreader hlive hclosed fun hover => absurd hover (h.not_over (.inl hold))
  have hleave : tally (Function.update s.caller t .idle) (fun caller => caller.holds = true) + 1 =
      tally s.caller (fun caller => caller.holds = true) := tally_leave hold (by simp [Caller.holds])
  rw [← hcaller] at hleave
  have hcounted := h.counted
  rw [← hleave] at hcounted
  have hle : tally s'.caller (fun caller => caller.holds = true) + 1 ≤ (s'.conn.refs : ℕ∞) + 1 :=
    hcounted.trans (by exact_mod_cast hrefs)
  exact (ENat.add_le_add_iff_right (by simp)).mp hle

-- The reader moves on while it is not past the wait.
theorem read (h : Guarded s) (hcaller : s'.caller = s.caller) (hrefs : s'.conn.refs = s.conn.refs)
    (hlive : s'.conn.tp.live = s.conn.tp.live)
    (hclosed : s.conn.closed = true → s'.conn.closed = true)
    (hown : ∀ back pc, s'.reader = .closing back pc →
      (pc ≠ .mark → s'.conn.closed = true) ∧ pc ≠ .test ∧ pc.effect = false) : Guarded s' := by
  refine ⟨by rw [hcaller, hrefs]; exact h.counted, ?_, fun back pc hr => (hown back pc hr).1⟩
  rintro (hl | ⟨back, pc, hr, hpc⟩)
  · obtain ⟨hc, hnone⟩ := h.shut (.inl (hlive ▸ hl))
    exact ⟨hclosed hc, fun t => by rw [hcaller]; exact hnone t⟩
  · obtain ⟨_, htest, heffect⟩ := hown back pc hr
    rcases hpc with hpc | hpc
    · exact absurd hpc htest
    · rw [heffect] at hpc
      cases hpc

-- A statement of another thread's close leaves references and handle alone.
theorem closer (h : Guarded s) (hone : Once s) {t : Nat} {pc : Pc} (hc : s.caller t = .closing pc) :
    Guarded (s.closer t pc) := by
  have heffect := (hone.others t pc hc).1
  have hidle : (s.caller t).holds = false := by rw [hc]; rfl
  unfold State.closer
  cases pc with
  | shutdown | free | clear => cases heffect
  | mark => exact h.stay rfl hidle.symm rfl rfl rfl (fun _ => rfl) fun _ => ⟨rfl, rfl⟩
  | fail =>
      refine h.stay rfl hidle.symm ?_ rfl ?_ ?_ fun _ => ⟨rfl, rfl⟩ <;>
        simp [State.advance, State.setCaller, Conn.failAll, Conn.failItems_eq]
  | poll left =>
      cases left <;> exact h.stay rfl hidle.symm rfl rfl rfl id fun _ => ⟨rfl, rfl⟩
  | test =>
      have hgone := hone.ended ((hone.others t .test hc).2 rfl)
      have hend : s.advance false .test = (s, none) := by simp [State.advance, hgone]
      rw [hend]
      exact h.stay rfl hidle.symm rfl rfl rfl id fun _ => ⟨rfl, rfl⟩
  | _ => exact h.stay rfl hidle.symm rfl rfl rfl id fun _ => ⟨rfl, rfl⟩

-- The reader goes on in its close; a wait that ends here leaves nobody behind.
theorem onward (h : Guarded s) {back : Back} {pc' : Pc} (hcaller : s'.caller = s.caller)
    (hnew : s'.reader = .closing back pc') (hrefs : s'.conn.refs = s.conn.refs)
    (hlive : s'.conn.tp.live = s.conn.tp.live) (hclosed : s'.conn.closed = true)
    (hover : pc' = .test ∨ pc'.effect = true →
      ∀ t, (s.caller t).holds = false ∧ (s.caller t).resets = false) : Guarded s' := by
  refine ⟨by rw [hcaller, hrefs]; exact h.counted, ?_, fun _ _ _ _ => hclosed⟩
  rintro (hl | ⟨back', pc₁, hr', hpc⟩)
  · obtain ⟨_, hnone⟩ := h.shut (.inl (hlive ▸ hl))
    exact ⟨hclosed, fun t => by rw [hcaller]; exact hnone t⟩
  · obtain ⟨_, rfl⟩ := Reader.closing.inj (hnew.symm.trans hr')
    exact ⟨hclosed, fun t => by rw [hcaller]; exact hover hpc t⟩

-- Without references nobody is out to send.
theorem nobody (h : Guarded s) (hrefs : s.conn.refs = 0) (t : Nat) : (s.caller t).holds = false := by
  have hcounted := h.counted
  rw [hrefs] at hcounted
  have hzero : tally s.caller (fun caller => caller.holds = true) = 0 := by simpa using hcounted
  by_contra hn
  have hpos : tally s.caller (fun caller => caller.holds = true) ≠ 0 := tally_pos (by simpa using hn)
  exact hpos hzero

theorem readerCloses (h : Guarded s) (hone : Once s) {back : Back} {pc : Pc}
    (hr : s.reader = .closing back pc) (hok : drained s pc) : Guarded (s.readerCloses back pc) := by
  have hclosed := h.own back pc hr
  have hpast : pc = .test ∨ pc.effect = true →
      ∀ t, (s.caller t).holds = false ∧ (s.caller t).resets = false :=
    fun hpc => (h.shut (.inr ⟨back, pc, hr, hpc⟩)).2
  -- The wait may end early where the handle is gone already.
  have hends : endsWait s pc ∨ s.conn.tp.live = false →
      ∀ t, (s.caller t).holds = false ∧ (s.caller t).resets = false := by
    rintro (he | hl)
    · obtain ⟨hrefs, hnone⟩ := hok he
      exact fun t => ⟨h.nobody hrefs t, hnone t⟩
    · exact (h.shut (.inl hl)).2
  have hback : ∀ s' : State ε δ, s'.caller = s.caller → s'.conn.refs = s.conn.refs →
      s'.conn.tp.live = false → s'.conn.closed = true →
      (∀ t, (s.caller t).holds = false ∧ (s.caller t).resets = false) → Guarded (s'.goBack back) := by
    intro s' hcaller hrefs hl hc hnone
    refine ⟨?_, fun _ => ⟨?_, fun t => ?_⟩, ?_⟩
    · have hcounted := h.counted
      rw [← hcaller, ← hrefs] at hcounted
      cases back <;> exact hcounted
    · cases back <;> exact hc
    · rw [← hcaller] at hnone
      cases back <;> exact hnone t
    · intro back' pc' hr'
      cases back <;> cases hr'
  unfold State.readerCloses
  cases pc with
  | join => exact absurd rfl (hone.own back .join hr).1
  | mark => exact h.onward rfl rfl rfl rfl rfl (by simp [Pc.effect])
  | stop | choose => exact h.onward rfl rfl rfl rfl (hclosed (by simp)) (by simp [Pc.effect])
  | fail =>
      refine h.onward rfl rfl ?_ ?_ ?_ (by simp [Pc.effect]) <;>
        simp [State.advance, Conn.failAll, Conn.failItems_eq]
  | poll left =>
      have hlive : endsWait s (.poll left) ∨ s.conn.tp.live = false ∨ ∃ k, left = k + 1 ∧ s.conn.refs ≠ 0 := by
        cases hl : s.conn.tp.live
        · exact .inr (.inl rfl)
        · cases left with
          | zero => exact .inl hl
          | succ left =>
              by_cases hrefs : s.conn.refs = 0
              · exact .inl ⟨hl, hrefs⟩
              · exact .inr (.inr ⟨left, rfl, hrefs⟩)
      rcases hlive with he | hl | ⟨k, rfl, hrefs⟩
      · cases left with
        | zero => exact h.onward rfl rfl rfl rfl (hclosed (by simp)) fun _ => hends (.inl he)
        | succ left => exact h.onward rfl rfl rfl rfl (hclosed (by simp)) fun _ => hends (.inl he)
      · cases left with
        | zero => exact h.onward rfl rfl rfl rfl (hclosed (by simp)) fun _ => hends (.inr hl)
        | succ left => exact h.onward rfl rfl rfl rfl (hclosed (by simp)) fun _ => hends (.inr hl)
      · have hnext : s.advance true (.poll (k + 1)) = (s, some (.poll k)) := by
          simp [State.advance, hrefs]
        rw [hnext]
        exact h.onward rfl rfl rfl rfl (hclosed (by simp)) (by simp [Pc.effect])
  | test =>
      have hnone := hpast (.inl rfl)
      by_cases hl : s.conn.tp.live = true
      · have hnext : s.advance true .test = (s, some (if s.peerEof then .shutdown else .free)) := by
          simp [State.advance, hl]
        rw [hnext]
        exact h.onward rfl rfl rfl rfl (hclosed (by simp)) fun _ => hnone
      · have hgone : s.conn.tp.live = false := by simpa using hl
        have hend : s.advance true .test = (s, none) := by simp [State.advance, hgone]
        rw [hend]
        exact hback s rfl rfl hgone (hclosed (by simp)) hnone
  | shutdown | free =>
      exact h.onward rfl rfl rfl rfl (hclosed (by simp)) fun _ => hpast (.inr rfl)
  | clear => exact hback _ rfl rfl rfl (hclosed (by simp)) (hpast (.inr rfl))

theorem step (h : Guarded s) (hone : Once s) {a : Act} (hok : sparesWriters s a)
    (hstep : s.step hp a = some s') : Guarded s' := by
  cases step_happens hstep with
  | refused _ _ | skipped _ | closed _ _ | selfClosed _ => exact h
  | acquire hc ha => exact h.acquire hc ha
  | acquireFresh hc => exact h.acquire hc hok
  | abandon hc => exact h.leave (by rw [hc]; rfl) rfl (Nat.le_succ _) rfl rfl id
  | check hc hn =>
      exact h.sends (by rw [hc]; rfl) rfl (by rcases hn with rfl | ⟨_, rfl⟩ <;> rfl) rfl rfl rfl id
  | beginWrite hc _ hconn hn =>
      subst hconn
      exact h.sends (by rw [hc]; rfl) rfl (by rcases hn with rfl | ⟨_, rfl⟩ <;> rfl) rfl rfl rfl id
  | endWrite hc => exact h.sends (by rw [hc]; rfl) rfl rfl rfl rfl rfl id
  | release hc =>
      refine h.leave (by rw [hc]; rfl) rfl ?_ rfl rfl id
      change s.conn.refs ≤ s.conn.refs - 1 + 1
      omega
  | @reset t sid hc ho _ =>
      exact h.stay rfl (by rw [hc]; rfl) rfl rfl rfl id
        fun hover => absurd hover (h.not_over (t := t) (.inr (.inr ho)))
  | @beginRst t sid hc _ =>
      exact h.stay rfl (by rw [hc]; rfl) rfl rfl rfl id
        fun hover => absurd hover (h.not_over (t := t) (.inr (.inl (by rw [hc]; rfl))))
  | @endRst t sid hc =>
      exact h.stay rfl (by rw [hc]; rfl) rfl rfl rfl id
        fun hover => absurd hover (h.not_over (t := t) (.inr (.inl (by rw [hc]; rfl))))
  | @pop t sid hc =>
      exact h.stay (Function.update_eq_self t s.caller).symm rfl rfl rfl rfl id
        fun _ => by rw [hc]; exact ⟨rfl, rfl⟩
  | close hc _ => exact h.stay rfl (by rw [hc]; rfl) rfl rfl rfl id fun _ => ⟨rfl, rfl⟩
  | closer hc => exact h.closer hone hc
  | readerCloses hr => exact h.readerCloses hone hr (hok _ _ hr)
  | recvn _ | beginReply _ _ | endReply _ => exact h.read rfl rfl rfl id (by rintro _ _ ⟨⟩)
  | received _ hs =>
      cases received_reads hs with
      | waits => exact h
      | wakes _ hopen _ => exact h.read rfl rfl rfl id fun back pc hc => absurd hc (hopen back pc)
      | ends => exact h.read rfl rfl rfl id (by rintro _ _ ⟨⟩)
  | @dispatched f _ =>
      have hk := Conn.kept_dispatch hp s.conn f
      unfold State.dispatched
      split
      · rename_i c he
        rw [he] at hk
        exact h.read rfl hk.refs hk.live hk.closed (by rintro _ _ ⟨⟩)
      · rename_i c exc he
        rw [he] at hk
        exact h.read rfl hk.refs hk.live hk.closed (by rintro _ _ ⟨⟩)
  | selfClose _ _ _ =>
      exact h.read rfl rfl rfl id (by rintro _ _ ⟨⟩; exact ⟨fun hn => absurd rfl hn, by simp, rfl⟩)
  | @raised exc _ =>
      refine h.read rfl ?_ ?_ ?_ ?_
      · simp [Conn.failAll, Conn.failItems_eq]
      · simp [Conn.failAll, Conn.failItems_eq]
      · simp [Conn.failAll, Conn.failItems_eq]
      · rintro _ _ ⟨⟩
        exact ⟨fun _ => by simp [Conn.failAll, Conn.failItems_eq], by simp, rfl⟩

end Guarded

theorem holds_or_resets {caller : Caller} (h : caller.writes = true) :
    caller.holds = true ∨ caller.resets = true := by
  cases caller <;> simp_all [Caller.writes, Caller.holds, Caller.resets]

-- While no wait ends on a reference or on a caller inside `_rst`, and no new
-- connection refuses its first caller, the handle is never closed under a write.
theorem never_closed_under_write (hp : Hpack ε δ) (fate : Nat → Option Nat) (acts : List Act)
    (s : State ε δ) (hok : Transition.Meets (State.step hp) sparesWriters (.start hp fate) acts)
    (hrun : Transition.run (State.step hp) (.start hp fate) acts = some s) (a : Act)
    (htakes : takesEffect s a) : ¬Writing s := by
  have hinv : Once s ∧ Guarded s := by
    refine Transition.invariant (fun s => Once s ∧ Guarded s) ?_
      ⟨Once.start hp fate, Guarded.start hp fate⟩ hok hrun
    intro s a next ⟨hone, hg⟩ hs hstep
    exact ⟨hone.step hstep, hg.step hone hs hstep⟩
  obtain ⟨hone, hguarded⟩ := hinv
  cases a with
  | reader =>
      obtain ⟨back, pc, hr, heffect⟩ := htakes
      have hnone := (hguarded.shut (.inr ⟨back, pc, hr, .inr heffect⟩)).2
      rintro (⟨t, ht⟩ | ⟨f, hf⟩)
      · obtain ⟨hholds, hresets⟩ := hnone t
        rcases holds_or_resets ht with hn | hn
        · rw [hholds] at hn
          cases hn
        · rw [hresets] at hn
          cases hn
      · rw [hr] at hf
        cases hf
  | closer t =>
      -- No thread but the reader gets there.
      obtain ⟨pc, hc, heffect⟩ := htakes
      rw [(hone.others t pc hc).1] at heffect
      cases heffect
  | _ => exact htakes.elim

-- A caller opens stream 1.
def requestSent : List Act :=
  [.acquire 0, .check 0 getRequest, .beginWrite 0, .endWrite 0, .release 0]

theorem never_closed_under_write_hangUp :
    ∃ s, Transition.run (State.step recorder) (.start recorder fun _ => none) (requestSent ++ hangUp) =
        some s ∧ takesEffect s .reader ∧ ¬Writing s := by
  refine ⟨_, rfl, ⟨.exit, .free, rfl, rfl⟩, ?_⟩
  refine never_closed_under_write recorder (fun _ => none) (requestSent ++ hangUp) _ ?_ rfl .reader
    ⟨.exit, .free, rfl, rfl⟩
  refine ⟨trivial, trivial, trivial, trivial, trivial, trivial, trivial, ?_, ?_, ?_, ?_, trivial⟩
  · intro back pc hr
    exact absurd hr (by simp)
  · intro back pc hr
    obtain ⟨_, rfl⟩ := Reader.closing.inj (hr : Reader.closing .exit (.poll 400) = _)
    refine fun _ => ⟨rfl, fun t => ?_⟩
    cases t <;> rfl
  · intro back pc hr
    obtain ⟨_, rfl⟩ := Reader.closing.inj (hr : Reader.closing .exit .test = _)
    exact fun he => he.elim
  · intro back pc hr
    obtain ⟨_, rfl⟩ := Reader.closing.inj (hr : Reader.closing .exit .shutdown = _)
    exact fun he => he.elim

-- The request times out just before the peer closes; its RST is still being
-- written when the reader shuts the handle down.
def resetInFlight : List Act :=
  requestSent ++ [.reset 0 1, .beginRst 0, .recvn, .received .closed, .reader, .reader, .reader]

theorem closed_under_reset :
    ∃ s next, Transition.run (State.step recorder) (.start recorder fun _ => none) resetInFlight =
        some s ∧ s.step recorder .reader = some next ∧ takesEffect s .reader ∧ Writing s ∧ Writing next :=
  ⟨_, _, rfl, rfl, ⟨.exit, .shutdown, rfl, rfl⟩, .inl ⟨0, rfl⟩, .inl ⟨0, rfl⟩⟩

end NeverFox.H2.Lifetime
