import NeverFox.H2.Lifetime
import NeverFox.H2.Peer

namespace NeverFox.H2.Lifetime

variable {ε δ : Type}

-- A step that calls fxtls_shutdown.
def shutsDown (s : State ε δ) : Act → Prop
  | .reader => ∃ back, s.reader = .closing back .shutdown
  | .closer t => s.caller t = .closing .shutdown
  | _ => False

-- The statements of Transport.close behind its test of the handle.
def Pc.effect : Pc → Bool
  | .shutdown | .free | .clear => true
  | _ => false

-- What a thread other than the reader has still to do in close(): beyond the
-- join only under a reader that has ended.
def Pc.early : Pc → Bool
  | .mark | .stop | .choose | .join => true
  | _ => false

-- The reader alone gets past the test of the handle, and once.
structure Once (s : State ε δ) : Prop where
  alive : s.conn.reading = false ↔ s.reader = .finished
  ended : s.reader = .finished → s.conn.tp.live = false
  others : ∀ t pc, s.caller t = .closing pc → pc.effect = false ∧ (pc.early = false → s.reader = .finished)
  own : ∀ back pc, s.reader = .closing back pc → pc ≠ .join ∧ (pc.effect → s.conn.tp.live = true)
  unfreed : s.conn.tp.live = true → (∀ back, s.reader ≠ .closing back .clear) → s.freed = 0
  freed : s.conn.tp.live = false ∨ (∃ back, s.reader = .closing back .clear) → s.freed = 1
  eof : s.peerEof = true → s.conn.tp.live = true → s.hungUp = true
  shut : ∀ back, s.reader = .closing back .shutdown → s.hungUp = true

namespace Once

variable {hp : Hpack ε δ} {s s' : State ε δ}

theorem start (hp : Hpack ε δ) (fate : Nat → Option Nat) : Once (State.start hp fate) :=
  ⟨by simp [State.start, Conn.init], nofun, nofun, nofun, fun _ _ => rfl, by simp [State.start, Conn.init],
    nofun, nofun⟩

-- A caller moves on, to a close at most up to the join.
theorem move (h : Once s) {t : Nat} {caller : Caller} (hcaller : s'.caller = Function.update s.caller t caller)
    (hnew : ∀ pc, caller = .closing pc → pc.effect = false ∧ (pc.early = false → s.reader = .finished))
    (hreader : s'.reader = s.reader) (hreading : s'.conn.reading = s.conn.reading)
    (hlive : s'.conn.tp.live = s.conn.tp.live) (hfreed : s'.freed = s.freed)
    (heof : s'.peerEof = s.peerEof) (hhung : s'.hungUp = s.hungUp) : Once s' := by
  refine ⟨?_, ?_, ?_, ?_, ?_, ?_, ?_, ?_⟩
  · rw [hreading, hreader]
    exact h.alive
  · rw [hreader, hlive]
    exact h.ended
  · intro other pc hc
    rw [hreader]
    rw [hcaller] at hc
    by_cases ho : other = t
    · subst ho
      rw [Function.update_self] at hc
      exact hnew pc hc
    · rw [Function.update_of_ne ho] at hc
      exact h.others other pc hc
  · rw [hreader, hlive]
    exact h.own
  · rw [hlive, hreader, hfreed]
    exact h.unfreed
  · rw [hlive, hreader, hfreed]
    exact h.freed
  · rw [heof, hlive, hhung]
    exact h.eof
  · rw [hreader, hhung]
    exact h.shut

-- The reader moves on outside of any close.
theorem read (h : Once s) (hcaller : s'.caller = s.caller) (hold : s.reader ≠ .finished)
    (hopen : ∀ back, s.reader ≠ .closing back .clear) (hnew : s'.reader ≠ .finished)
    (hpc : ∀ back pc, s'.reader = .closing back pc → pc ≠ .join ∧ pc.effect = false)
    (hreading : s'.conn.reading = s.conn.reading) (hlive : s'.conn.tp.live = s.conn.tp.live)
    (hfreed : s'.freed = s.freed) (heof : s'.peerEof = true → s'.conn.tp.live = true → s'.hungUp = true) :
    Once s' := by
  have heffect : ∀ back pc, pc.effect = true → s'.reader ≠ .closing back pc := by
    intro back pc hpe hr
    rw [(hpc back pc hr).2] at hpe
    cases hpe
  refine ⟨?_, fun hr => absurd hr hnew, ?_, ?_, ?_, ?_, heof, ?_⟩
  · rw [hreading, h.alive]
    exact iff_of_false hold hnew
  · intro t pc hc
    rw [hcaller] at hc
    obtain ⟨he, hf⟩ := h.others t pc hc
    exact ⟨he, fun hearly => absurd (hf hearly) hold⟩
  · intro back pc hr
    exact ⟨(hpc back pc hr).1, fun he => absurd hr (heffect back pc he)⟩
  · intro hl _
    rw [hfreed]
    exact h.unfreed (hlive ▸ hl) hopen
  · rintro (hl | ⟨back, hr⟩)
    · rw [hfreed]
      exact h.freed (.inl (hlive ▸ hl))
    · exact absurd hr (heffect back .clear rfl)
  · intro back hr
    exact absurd hr (heffect back .shutdown rfl)

-- A statement of another thread's close.
theorem closer (h : Once s) {t : Nat} {pc : Pc} (hc : s.caller t = .closing pc) :
    Once (s.closer t pc) := by
  obtain ⟨heffect, hlate⟩ := h.others t pc hc
  unfold State.closer
  cases pc with
  | shutdown | free | clear => cases heffect
  | mark | stop => exact h.move rfl (by rintro pc ⟨⟩; exact ⟨rfl, nofun⟩) rfl rfl rfl rfl rfl rfl
  | join => exact h.move rfl nofun rfl rfl rfl rfl rfl rfl
  | choose =>
      refine h.move rfl ?_ rfl rfl rfl rfl rfl rfl
      rintro pc ⟨⟩
      cases hr : s.conn.reading with
      | true => exact ⟨rfl, nofun⟩
      | false => exact ⟨rfl, fun _ => h.alive.mp hr⟩
  | fail =>
      have hk := hlate rfl
      refine h.move rfl ?_ rfl ?_ ?_ rfl rfl rfl
      · rintro pc ⟨⟩
        exact ⟨rfl, fun _ => hk⟩
      · simp [State.advance, State.setCaller, Conn.failAll, Conn.failItems_eq]
      · simp [State.advance, State.setCaller, Conn.failAll, Conn.failItems_eq]
  | poll left =>
      have hk := hlate rfl
      cases left with
      | zero => exact h.move rfl (by rintro pc ⟨⟩; exact ⟨rfl, fun _ => hk⟩) rfl rfl rfl rfl rfl rfl
      | succ left =>
          refine h.move rfl ?_ rfl rfl rfl rfl rfl rfl
          rintro pc ⟨⟩
          split <;> exact ⟨rfl, fun _ => hk⟩
  | test =>
      -- The reader has ended, and has taken the handle with it.
      have hgone := h.ended (hlate rfl)
      simp only [State.advance, hgone, Bool.false_eq_true, ↓reduceIte]
      exact h.move rfl nofun rfl rfl rfl rfl rfl rfl

-- The reader goes back to what it was at, or ends.
theorem goBack (h : Once s) {back : Back} {pc : Pc} (hr : s.reader = .closing back pc)
    (hlive : s'.conn.tp.live = false) (hfreed : s'.freed = 1) (hcaller : s'.caller = s.caller)
    (hreading : s'.conn.reading = s.conn.reading) : Once (s'.goBack back) := by
  have hnot : s.reader ≠ .finished := by simp [hr]
  have hothers : ∀ t pc, s'.caller t = .closing pc → pc.effect = false ∧ pc.early = true := by
    intro t pc hc
    rw [hcaller] at hc
    obtain ⟨he, hf⟩ := h.others t pc hc
    refine ⟨he, ?_⟩
    by_contra hearly
    exact hnot (hf (by simpa using hearly))
  have hreading' : s'.conn.reading = true := by
    rw [hreading]
    by_contra hn
    exact hnot (h.alive.mp (by simpa using hn))
  refine ⟨?_, ?_, ?_, ?_, ?_, ?_, ?_, ?_⟩
  · cases back <;> simp [State.goBack, hreading']
  · intro _
    cases back <;> exact hlive
  · intro t pc hc
    obtain ⟨he, hearly⟩ := hothers t pc (by cases back <;> exact hc)
    exact ⟨he, fun hn => by rw [hearly] at hn; cases hn⟩
  · intro back' pc' hr'
    cases back <;> cases hr'
  · intro hl _
    have hl' : s'.conn.tp.live = true := by cases back <;> exact hl
    rw [hlive] at hl'
    cases hl'
  · intro _
    cases back <;> exact hfreed
  · intro _ hl
    have hl' : s'.conn.tp.live = true := by cases back <;> exact hl
    rw [hlive] at hl'
    cases hl'
  · intro back' hr'
    cases back <;> cases hr'

-- The reader goes on in a close, without a call to the library.
theorem onward (h : Once s) {back : Back} {pc pc' : Pc} (hr : s.reader = .closing back pc)
    (hcaller : s'.caller = s.caller) (hnew : s'.reader = .closing back pc') (hjoin : pc' ≠ .join)
    (hpc : pc ≠ .clear) (hpc' : pc' ≠ .clear) (heffect : pc'.effect = true → s.conn.tp.live = true)
    (hshut : pc' = .shutdown → s.hungUp = true) (hreading : s'.conn.reading = s.conn.reading)
    (hlive : s'.conn.tp.live = s.conn.tp.live) (hfreed : s'.freed = s.freed)
    (heof : s'.peerEof = s.peerEof) (hhung : s'.hungUp = s.hungUp) : Once s' := by
  have hopen : ∀ back', s.reader ≠ .closing back' .clear := by
    intro back' hc
    rw [hr] at hc
    exact hpc (Reader.closing.inj hc).2
  refine ⟨?_, ?_, ?_, ?_, ?_, ?_, ?_, ?_⟩
  · rw [hreading, h.alive, hr, hnew]
    simp
  · intro hf
    rw [hnew] at hf
    cases hf
  · intro t pc₁ hc
    rw [hcaller] at hc
    obtain ⟨he, hf⟩ := h.others t pc₁ hc
    refine ⟨he, fun hearly => ?_⟩
    have hend := hf hearly
    rw [hr] at hend
    cases hend
  · intro back' pc₁ hc
    obtain ⟨rfl, rfl⟩ := Reader.closing.inj (hnew.symm.trans hc)
    exact ⟨hjoin, fun he => hlive ▸ heffect he⟩
  · intro hl _
    rw [hfreed]
    exact h.unfreed (hlive ▸ hl) hopen
  · rintro (hl | ⟨back', hc⟩)
    · rw [hfreed]
      exact h.freed (.inl (hlive ▸ hl))
    · exact absurd (Reader.closing.inj (hnew.symm.trans hc)).2 hpc'
  · rw [heof, hlive, hhung]
    exact h.eof
  · intro back' hc
    rw [hhung]
    exact hshut (Reader.closing.inj (hnew.symm.trans hc)).2

theorem readerCloses (h : Once s) {back : Back} {pc : Pc} (hr : s.reader = .closing back pc) :
    Once (s.readerCloses back pc) := by
  obtain ⟨hjoin, heffect⟩ := h.own back pc hr
  unfold State.readerCloses
  cases pc with
  | join => exact absurd rfl hjoin
  | mark | stop | choose =>
      exact h.onward hr rfl rfl (by simp) (by simp) (by simp) (by simp [Pc.effect]) (by simp) rfl rfl
        rfl rfl rfl
  | fail =>
      refine h.onward hr rfl rfl (by simp) (by simp) (by simp) (by simp [Pc.effect]) (by simp) ?_ ?_ rfl
        rfl rfl
      · simp [State.advance, Conn.failAll, Conn.failItems_eq]
      · simp [State.advance, Conn.failAll, Conn.failItems_eq]
  | poll left =>
      cases left with
      | zero =>
          exact h.onward hr rfl rfl (by simp) (by simp) (by simp) (by simp [Pc.effect]) (by simp) rfl rfl
            rfl rfl rfl
      | succ left =>
          by_cases hrefs : s.conn.refs = 0
          · simp only [State.advance, hrefs, ↓reduceIte]
            exact h.onward hr rfl rfl (by simp) (by simp) (by simp) (by simp [Pc.effect]) (by simp) rfl rfl
              rfl rfl rfl
          · simp only [State.advance, hrefs, ↓reduceIte]
            exact h.onward hr rfl rfl (by simp) (by simp) (by simp) (by simp [Pc.effect]) (by simp) rfl rfl
              rfl rfl rfl
  | test =>
      by_cases hl : s.conn.tp.live = true
      · by_cases he : s.peerEof = true
        · have hnext : s.advance true .test = (s, some .shutdown) := by simp [State.advance, hl, he]
          rw [hnext]
          exact h.onward hr rfl rfl (by simp) (by simp) (by simp) (fun _ => hl) (fun _ => h.eof he hl) rfl
            rfl rfl rfl rfl
        · have hnext : s.advance true .test = (s, some .free) := by simp [State.advance, hl, he]
          rw [hnext]
          exact h.onward hr rfl rfl (by simp) (by simp) (by simp) (fun _ => hl) (by simp) rfl rfl rfl rfl rfl
      · have hgone : s.conn.tp.live = false := by simpa using hl
        simp only [State.advance, hgone, Bool.false_eq_true, ↓reduceIte]
        exact h.goBack hr hgone (h.freed (.inl hgone)) rfl rfl
  | shutdown =>
      exact h.onward hr rfl rfl (by simp) (by simp) (by simp) (fun _ => heffect rfl) (by simp) rfl rfl rfl rfl
        rfl
  | clear => exact h.goBack hr rfl (h.freed (.inr ⟨back, hr⟩)) rfl rfl
  | free =>
      have hl := heffect rfl
      have hzero := h.unfreed hl fun back' hc => by
        rw [hr] at hc
        cases (Reader.closing.inj hc).2
      refine ⟨?_, by rintro ⟨⟩, ?_, ?_, ?_, ?_, h.eof, by rintro _ ⟨⟩⟩
      · have halive := h.alive
        rw [hr] at halive
        simpa [State.advance] using halive
      · intro t pc₁ hc
        obtain ⟨he, hf⟩ := h.others t pc₁ hc
        refine ⟨he, fun hearly => ?_⟩
        have hend := hf hearly
        rw [hr] at hend
        cases hend
      · rintro back' pc₁ ⟨⟩
        exact ⟨by simp, fun _ => hl⟩
      · exact fun _ hopen => absurd rfl (hopen back)
      · intro _
        change s.freed + 1 = 1
        rw [hzero]

-- What the reader does outside of any close.
theorem readerStep (h : Once s) {c : Conn ε δ} {reader : Reader} {lock : Option (Option Nat)}
    (hold : s.reader ≠ .finished ∧ ∀ back pc, s.reader ≠ .closing back pc)
    (hnew : reader ≠ .finished) (hpc : ∀ back pc, reader = .closing back pc → pc ≠ .join ∧ pc.effect = false)
    (hreading : c.reading = s.conn.reading) (hlive : c.tp.live = s.conn.tp.live) :
    Once { s with conn := c, reader := reader, lock := lock } := by
  refine h.read rfl hold.1 (fun back => hold.2 back _) hnew hpc hreading hlive rfl ?_
  intro he hl
  exact h.eof he (hlive ▸ hl)

theorem step (h : Once s) {a : Act} (hstep : s.step hp a = some s') : Once s' := by
  have hkeep : ∀ {t : Nat} {caller : Caller} {c : Conn ε δ} {lock : Option (Option Nat)},
      (∀ pc, caller ≠ .closing pc) → c.reading = s.conn.reading → c.tp.live = s.conn.tp.live →
      Once ({ s with conn := c, lock := lock }.setCaller t caller) :=
    fun hnot hreading hlive =>
      h.move rfl (fun pc hc => absurd hc (hnot pc)) rfl hreading hlive rfl rfl rfl
  cases step_happens hstep with
  | refused _ _ | skipped _ | closed _ _ | selfClosed _ => exact h
  | acquire _ ha =>
      refine hkeep (by simp) ?_ ?_ <;> simp [Conn.acquire, ha]
  | acquireFresh _ => refine hkeep (by simp) ?_ ?_ <;> unfold Conn.acquire <;> split <;> rfl
  | abandon _ => exact hkeep (by simp) rfl rfl
  | check _ hn => exact hkeep (by rcases hn with rfl | ⟨_, rfl⟩ <;> simp) rfl rfl
  | beginWrite _ _ hconn hn =>
      subst hconn
      exact hkeep (by rcases hn with rfl | ⟨_, rfl⟩ <;> simp) rfl rfl
  | endWrite _ | release _ | endRst _ | reset _ _ _ | beginRst _ _ => exact hkeep (by simp) rfl rfl
  | @pop t sid hc =>
      have hsame := Function.update_eq_self t s.caller
      exact h.move hsame.symm (by rw [hc]; nofun) rfl rfl rfl rfl rfl rfl
  | close _ _ => exact h.move rfl (by rintro pc ⟨⟩; exact ⟨rfl, nofun⟩) rfl rfl rfl rfl rfl rfl
  | closer hc => exact h.closer hc
  | readerCloses hr => exact h.readerCloses hr
  | recvn hr => exact h.readerStep (by simp [hr]) (by simp) (by simp) rfl rfl
  | beginReply hr _ => exact h.readerStep (by simp [hr]) (by simp) (by simp) rfl rfl
  | endReply hr => exact h.readerStep (by simp [hr]) (by simp) (by simp) rfl rfl
  | received hr hs =>
      cases received_reads hs with
      | waits => exact h
      | wakes _ hopen hon =>
          exact h.readerStep (by simp [hr]) hon (fun back pc hc => absurd hc (hopen back pc)) rfl rfl
      | ends =>
          refine h.read rfl (by simp [hr]) (by simp [hr]) (by simp) (by simp) rfl rfl rfl ?_
          intro _ hl
          simp only at hl ⊢
          simp [hl]
  | @dispatched f hr =>
      have hk := Conn.kept_dispatch hp s.conn f
      unfold State.dispatched
      split
      · rename_i c he
        rw [he] at hk
        exact h.readerStep (by simp [hr]) (by simp) (by simp) hk.reading hk.live
      · rename_i c exc he
        rw [he] at hk
        exact h.readerStep (by simp [hr]) (by simp) (by simp) hk.reading hk.live
  | @selfClose back hr hb _ =>
      have hold : s.reader ≠ .finished ∧ ∀ back pc, s.reader ≠ .closing back pc := by
        cases back with
        | exit => exact absurd rfl hb
        | dispatch | raised =>
            have hreader := congrArg State.reader hr
            simp only [State.goBack] at hreader
            simp [← hreader]
      exact h.readerStep hold (by simp) (by rintro back pc ⟨⟩; exact ⟨by simp, rfl⟩) rfl rfl
  | @raised exc hr =>
      refine h.readerStep (by simp [hr]) (by simp) (by rintro back pc ⟨⟩; exact ⟨by simp, rfl⟩) ?_ ?_
      · simp [Conn.failAll, Conn.failItems_eq]
      · simp [Conn.failAll, Conn.failItems_eq]

end Once

-- Another thread's close frees nothing.
theorem Once.closer_keeps {s : State ε δ} (h : Once s) {t : Nat} {pc : Pc}
    (hc : s.caller t = .closing pc) :
    (s.closer t pc).reader = s.reader ∧ (s.closer t pc).freed = s.freed := by
  have heffect := (h.others t pc hc).1
  unfold State.closer
  cases pc with
  | shutdown | free | clear => cases heffect
  | poll left => cases left <;> exact ⟨rfl, rfl⟩
  | test => cases hl : s.conn.tp.live <;> simp [State.advance, hl, State.setCaller]
  | _ => exact ⟨rfl, rfl⟩

-- The one statement that calls fxtls_close.
theorem Once.frees {hp : Hpack ε δ} {s s' : State ε δ} {a : Act} (h : Once s)
    (hstep : s.step hp a = some s') (hf : s'.freed ≠ s.freed) :
    a = .reader ∧ ∃ back, s.reader = .closing back .free := by
  cases step_happens hstep with
  | closer hc => exact absurd (h.closer_keeps hc).2 hf
  | @readerCloses back pc hr =>
      refine ⟨rfl, back, ?_⟩
      by_contra hpc
      apply hf
      unfold State.readerCloses
      cases pc with
      | free => exact absurd hr hpc
      | poll left => cases left <;> rfl
      | test => cases hl : s.conn.tp.live <;> cases back <;> simp [State.advance, hl, State.goBack]
      | join | clear => cases back <;> rfl
      | _ => rfl
  | @dispatched f hr =>
      apply absurd _ hf
      unfold State.dispatched
      split <;> rfl
  | received _ hs => cases received_reads hs <;> exact absurd rfl hf
  | _ => exact absurd rfl hf

-- Without a close() of its own the reader is past its last read once it tears down.
structure Forward (s : State ε δ) : Prop where
  exits : ∀ back pc, s.reader = .closing back pc → back = .exit
  past : s.freed ≠ 0 → s.reader = .finished ∨ ∃ pc, s.reader = .closing .exit pc

namespace Forward

variable {hp : Hpack ε δ} {s s' : State ε δ}

theorem keep (h : Forward s) (hreader : s'.reader = s.reader) (hfreed : s'.freed = s.freed) :
    Forward s' := by
  constructor
  · rw [hreader]
    exact h.exits
  · rw [hfreed, hreader]
    exact h.past

-- A reader that still reads has freed nothing.
theorem read (h : Forward s) (hold : s.reader ≠ .finished ∧ ∀ back pc, s.reader ≠ .closing back pc)
    (hnew : ∀ back pc, s'.reader = .closing back pc → back = .exit) (hfreed : s'.freed = s.freed) :
    Forward s' := by
  refine ⟨hnew, fun hf => ?_⟩
  rw [hfreed] at hf
  rcases h.past hf with hr | ⟨pc, hr⟩
  · exact absurd hr hold.1
  · exact absurd hr (hold.2 .exit pc)

theorem readerCloses (h : Forward s) {back : Back} {pc : Pc} (hr : s.reader = .closing back pc) :
    Forward (s.readerCloses back pc) := by
  obtain rfl := h.exits back pc hr
  have hgoes : (s.readerCloses .exit pc).reader = .finished ∨
      ∃ pc', (s.readerCloses .exit pc).reader = .closing .exit pc' := by
    unfold State.readerCloses
    split
    · exact .inr ⟨_, rfl⟩
    · exact .inl rfl
  refine ⟨fun back' pc' hr' => ?_, fun _ => hgoes⟩
  rcases hgoes with hf | ⟨pc₁, hc⟩
  · rw [hf] at hr'
    cases hr'
  · exact (Reader.closing.inj (hc.symm.trans hr')).1.symm

theorem step (hone : Once s) (h : Forward s) {a : Act} (ha : a ≠ .selfClose)
    (hstep : s.step hp a = some s') : Forward s' := by
  cases step_happens hstep with
  | closer hc =>
      obtain ⟨hreader, hfreed⟩ := hone.closer_keeps hc
      exact h.keep hreader hfreed
  | readerCloses hr => exact h.readerCloses hr
  | selfClose | selfClosed => exact absurd rfl ha
  | recvn hr | beginReply hr | endReply hr => exact h.read (by simp [hr]) (by simp) rfl
  | raised hr => exact h.read (by simp [hr]) (by rintro back pc ⟨⟩; rfl) rfl
  | @dispatched f hr =>
      unfold State.dispatched
      split <;> exact h.read (by simp [hr]) (by simp) rfl
  | received hr hs =>
      have hold : s.reader ≠ .finished ∧ ∀ back pc, s.reader ≠ .closing back pc := by simp [hr]
      cases received_reads hs with
      | waits => exact h
      | wakes _ hopen _ => exact h.read hold (fun back pc hc => absurd hc (hopen back pc)) rfl
      | ends => exact h.read hold (by simp) rfl
  | _ => exact h.keep rfl rfl

end Forward

-- The handle is freed at most once; by the reader outside of recvn, which
-- comes later only behind a close() of the reader's own and finds no handle,
-- or under a reader that has ended. It is shut down only after a read that
-- came back with the end of the stream or an error.
theorem handle_freed_once (hp : Hpack ε δ) (fate : Nat → Option Nat) (acts : List Act) (s : State ε δ)
    (hrun : Transition.run (State.step hp) (.start hp fate) acts = some s) :
    s.freed ≤ 1 ∧
      (s.freed ≠ 0 → s.reader = .reading → s.conn.tp.live = false ∧ .selfClose ∈ acts) ∧
      ∀ a next, s.step hp a = some next →
        (next.freed ≠ s.freed → (a = .reader ∧ ∃ back, s.reader = .closing back .free) ∨
          (∃ t, a = .closer t) ∧ s.reader = .finished) ∧
        (shutsDown s a → s.hungUp = true) := by
  have honce : Once s :=
    Transition.invariant_always Once (fun s a next h hs => h.step hs) (Once.start hp fate) hrun
  refine ⟨?_, ?_, ?_⟩
  · by_cases hl : s.conn.tp.live = false ∨ ∃ back, s.reader = .closing back .clear
    · rw [honce.freed hl]
    · obtain ⟨hlive, hopen⟩ := not_or.mp hl
      rw [honce.unfreed (by simpa using hlive) fun back hr => hopen ⟨back, hr⟩]
      exact Nat.zero_le 1
  · intro hfreed hreading
    constructor
    · by_contra hl
      exact hfreed (honce.unfreed (by simpa using hl) (by simp [hreading]))
    · by_contra hno
      have hmeets : Transition.Meets (State.step hp) (fun _ a => a ≠ .selfClose) (.start hp fate) acts := by
        refine .of_forall fun a ha _ he => ?_
        subst he
        exact hno ha
      have hforward : Once s ∧ Forward s := by
        refine Transition.invariant (fun s => Once s ∧ Forward s) ?_
          ⟨Once.start hp fate, ⟨by rintro _ _ ⟨⟩, fun hf => absurd rfl hf⟩⟩ hmeets hrun
        intro s a next ⟨hone, hf⟩ ha hs
        exact ⟨hone.step hs, hf.step hone ha hs⟩
      rcases hforward.2.past hfreed with hr | ⟨pc, hr⟩ <;> rw [hreading] at hr <;> cases hr
  · intro a next hstep
    refine ⟨fun hf => .inl (honce.frees hstep hf), fun hshut => ?_⟩
    cases a with
    | reader =>
        obtain ⟨back, hr⟩ := hshut
        exact honce.shut back hr
    | closer t => cases (honce.others t .shutdown hshut).1
    | _ => cases hshut


-- The peer closes, and the reader tears the connection down.
def hangUp : List Act := [.recvn, .received .closed, .reader, .reader, .reader, .reader]

theorem handle_freed_once_hangUp :
    ∃ s, Transition.run (State.step recorder) (.start recorder fun _ => none) hangUp = some s ∧
      s.reader = .closing .exit .free ∧ s.freed ≤ 1 ∧ s.hungUp = true := by
  refine ⟨_, rfl, rfl, ?_, rfl⟩
  exact (handle_freed_once recorder (fun _ => none) hangUp _ rfl).1

-- The reader closes the connection from within a dispatch, and goes on to read.
def closedWithin : List Act :=
  [.recvn, .received (.frame (windowUpdate 0 1)), .selfClose] ++ List.replicate 8 .reader ++
    [.dispatched, .recvn]

theorem read_after_free :
    ∃ s, Transition.run (State.step recorder) (.start recorder fun _ => none) closedWithin = some s ∧
      s.freed = 1 ∧ s.reader = .reading :=
  ⟨_, rfl, rfl, rfl⟩

end NeverFox.H2.Lifetime
