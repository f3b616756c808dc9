import NeverFox.H2.Peer
import NeverFox.H2.Threads

namespace NeverFox.H2

variable {ε δ : Type}

namespace Threads

namespace Covered

variable {hp : Hpack ε δ} {s s' : Threads ε δ}

theorem init (hp : Hpack ε δ) (fate : Nat → Option Nat) : Covered (start hp fate) :=
  ⟨nofun, nofun, nofun, nofun⟩

-- Steps of the senders and of the callers, which leave the reader where it is.
theorem settle (h : Covered s) (hc : Settles s.conn s'.conn) (hr : s'.reader = s.reader)
    (hs : s'.snapped = s.snapped) (hd : s'.dispatched = s.dispatched) : Covered s' := by
  refine ⟨?_, ?_, ?_, ?_⟩
  · intro exc items hi sid hm
    exact (h.failing exc items (hr ▸ hi) sid (hc.streams hm)).imp_left (hc.done sid)
  · intro hi sid hm
    exact hc.done sid (h.finished (hr ▸ hi) sid (hc.streams hm))
  · intro f items hi
    obtain ⟨hsnap, hleft⟩ := h.sweeping f items (hr ▸ hi)
    refine ⟨hs ▸ hsnap, ?_⟩
    intro sid hm hlt
    exact (hleft sid (hc.streams hm) hlt).imp_left (hc.done sid)
  · intro last hl
    obtain ⟨hsnap, hall⟩ := h.dispatched last (hd ▸ hl)
    exact ⟨hs ▸ hsnap, fun sid hm hlt => hc.done sid (hall sid (hc.streams hm) hlt)⟩

-- The reader moves on where no snapshot is in its hands.
theorem advance (h : Covered s) (hc : Settles s.conn s'.conn)
    (hf : ∀ exc items, s'.reader ≠ .failing exc items) (hfin : s'.reader ≠ .finished)
    (hsw : ∀ f items, s'.reader ≠ .sweeping f items) (hs : s'.snapped = s.snapped)
    (hd : s'.dispatched = s.dispatched) : Covered s' := by
  refine ⟨fun exc items hi => absurd hi (hf exc items), fun hi => absurd hi hfin,
    fun f items hi => absurd hi (hsw f items), ?_⟩
  intro last hl
  obtain ⟨hsnap, hall⟩ := h.dispatched last (hd ▸ hl)
  exact ⟨hs ▸ hsnap, fun sid hm hlt => hc.done sid (hall sid (hc.streams hm) hlt)⟩

-- A stream registered in time is behind no snapshot.
theorem register (h : Covered s) {t : Nat} (htime : s.inTime (.register t))
    (hs : s.register t = some s') : Covered s' := by
  unfold Threads.register at hs
  split at hs
  · rename_i args fields sid hsender
    obtain rfl := Option.some.inj hs
    simp only [inTime, hsender, Bool.and_eq_true, List.all_eq_true, decide_eq_true_eq] at htime
    obtain ⟨hreader, hsnap⟩ := htime
    have hmem : ∀ other ∈ (s.conn.register sid args.maxBytes).streams,
        other = sid ∨ (other ∈ s.conn.streams ∧ other ≠ sid) := by
      intro other hm
      by_cases ho : other = sid
      · exact .inl ho
      · refine .inr ⟨?_, ho⟩
        unfold Conn.register at hm
        split at hm
        · exact hm
        · simpa [ho] using hm
    have hobj : ∀ other, other ≠ sid →
        ((s.conn.register sid args.maxBytes).obj other).done = (s.conn.obj other).done := by
      intro other ho
      simp [Conn.register, ho]
    refine ⟨?_, ?_, ?_, ?_⟩
    · intro exc items hi
      rw [show s.reader = _ from hi] at hreader
      exact absurd hreader (by simp)
    · intro hi
      rw [show s.reader = _ from hi] at hreader
      exact absurd hreader (by simp)
    · intro f items hi
      obtain ⟨hin, hleft⟩ := h.sweeping f items hi
      refine ⟨hin, ?_⟩
      intro other hm hlt
      rcases hmem other hm with rfl | ⟨hold, ho⟩
      · exact absurd (hsnap _ hin) (Nat.not_le.mpr hlt)
      · exact (hleft other hold hlt).imp_left fun hd => (hobj other ho).trans hd
    · intro last hl
      obtain ⟨hin, hall⟩ := h.dispatched last hl
      refine ⟨hin, ?_⟩
      intro other hm hlt
      rcases hmem other hm with rfl | ⟨hold, ho⟩
      · exact absurd (hsnap _ hin) (Nat.not_le.mpr hlt)
      · exact (hobj other ho).trans (hall other hold hlt)
  · cases hs

-- Failing the head of a snapshot leaves the rest of it to be failed.
theorem failed_head (c : Conn ε δ) (exc : Exn) (pick : Nat → Bool) {head sid : Nat} {items : List Nat}
    (hpick : pick sid = true) (h : (c.obj sid).done = true ∨ sid ∈ head :: items) :
    ((c.failItems exc pick [head]).obj sid).done = true ∨ sid ∈ items := by
  have hkeep := (Settles.failItems c exc pick [head]).done sid
  rcases h with hd | hm
  · exact .inl (hkeep hd)
  · rcases List.mem_cons.mp hm with rfl | hm
    · left
      rw [Conn.failItems_eq]
      dsimp only
      split
      · rfl
      · rename_i hno
        simpa [hpick] using hno
    · exact .inr hm

theorem reads (h : Covered s) (hs : s.reads = some s') : Covered s' := by
  unfold Threads.reads at hs
  split at hs
  · cases hs
  · cases hs
  · -- the snapshot of GOAWAY holds every registered stream
    obtain rfl := Option.some.inj hs
    refine ⟨nofun, nofun, ?_, ?_⟩
    · rintro f items ⟨⟩
      exact ⟨by simp, fun sid hm _ => .inr hm⟩
    · intro last hl
      obtain ⟨hsnap, hall⟩ := h.dispatched last hl
      exact ⟨List.mem_cons_of_mem _ hsnap, hall⟩
  · -- nothing is left of it: the streams above the last id are done
    rename_i f hreader
    obtain rfl := Option.some.inj hs
    obtain ⟨hsnap, hleft⟩ := h.sweeping f [] hreader
    refine ⟨nofun, nofun, nofun, ?_⟩
    intro last hl
    rcases List.mem_cons.mp hl with rfl | hl
    · exact ⟨hsnap, fun sid hm hlt => (hleft sid hm hlt).resolve_right (by simp)⟩
    · exact h.dispatched last hl
  · rename_i f head items hreader
    obtain rfl := Option.some.inj hs
    obtain ⟨hsnap, hleft⟩ := h.sweeping f (head :: items) hreader
    have hset := Settles.failItems s.conn (Conn.goawayError f)
      (fun sid => Conn.goawayLastSid f < sid) [head]
    refine ⟨nofun, nofun, ?_, ?_⟩
    · rintro g rest ⟨⟩
      refine ⟨hsnap, ?_⟩
      intro sid hm hlt
      exact failed_head _ _ _ (by simpa using hlt) (hleft sid (hset.streams hm) hlt)
    · intro last hl
      obtain ⟨hin, hall⟩ := h.dispatched last hl
      exact ⟨hin, fun sid hm hlt => hset.done sid (hall sid (hset.streams hm) hlt)⟩
  · obtain rfl := Option.some.inj hs
    exact h.advance (.of_obj (List.Subset.refl _) rfl) nofun nofun nofun rfl rfl
  · -- the snapshot of `_fail_all`
    obtain rfl := Option.some.inj hs
    refine ⟨?_, nofun, nofun, h.dispatched⟩
    rintro exc items ⟨⟩ sid hm
    exact .inr hm
  · rename_i exc hreader
    obtain rfl := Option.some.inj hs
    refine ⟨nofun, ?_, nofun, h.dispatched⟩
    intro _ sid hm
    exact (h.failing exc [] hreader sid hm).resolve_right (by simp)
  · rename_i exc head items hreader
    obtain rfl := Option.some.inj hs
    have hset := Settles.failItems s.conn exc (fun _ => true) [head]
    refine ⟨?_, nofun, nofun, ?_⟩
    · rintro exc' rest ⟨⟩ sid hm
      exact failed_head _ _ _ rfl (h.failing exc (head :: items) hreader sid (hset.streams hm))
    · intro last hl
      obtain ⟨hin, hall⟩ := h.dispatched last hl
      exact ⟨hin, fun sid hm hlt => hset.done sid (hall sid (hset.streams hm) hlt)⟩

theorem step (h : Covered s) {a : Act} (htime : s.inTime a) (hs : s.step hp a = some s') :
    Covered s' := by
  have hobj : ∀ c : Conn ε δ, c.streams = s.conn.streams → c.obj = s.conn.obj → Settles s.conn c :=
    fun c hs ho => .of_obj (by rw [hs]; exact List.Subset.refl _) ho
  cases a with
  | check t args =>
      change s.check t args = some s' at hs
      unfold Threads.check at hs
      split at hs
      · split at hs
        · obtain rfl := Option.some.inj hs
          exact h.settle (hobj _ rfl rfl) rfl rfl rfl
        · split at hs <;> obtain rfl := Option.some.inj hs <;> exact h.settle (hobj _ rfl rfl) rfl rfl rfl
      · cases hs
  | allocate t =>
      change s.allocate t = some s' at hs
      unfold Threads.allocate at hs
      split at hs
      · obtain rfl := Option.some.inj hs
        exact h.settle (hobj _ rfl rfl) rfl rfl rfl
      · cases hs
  | register t => exact h.register htime hs
  | write t =>
      change s.write hp t = some s' at hs
      unfold Threads.write at hs
      split at hs
      · rename_i args fields sid _
        obtain rfl := Option.some.inj hs
        exact h.settle ((Settles.emit hp s.conn sid fields args.body).trans
          (.of_obj (List.Subset.refl _) rfl)) rfl rfl rfl
      · cases hs
  | frame f =>
      change s.frame hp f = some s' at hs
      unfold Threads.frame at hs
      split at hs
      · split at hs
        · obtain rfl := Option.some.inj hs
          exact h.advance (hobj _ rfl rfl) (by simp) (by simp) (by simp) rfl rfl
        · have hset : Settles s.conn (s.conn.dispatch hp f).1 :=
            .of_micros (Conn.Micros.dispatch hp s.conn f)
          rcases hd : s.conn.dispatch hp f with ⟨c, raised⟩
          rw [hd] at hs hset
          dsimp only at hs
          split at hs
          · obtain rfl := Option.some.inj hs
            cases raised with
            | none => exact h.advance hset (by simp) (by simp) (by simp) rfl rfl
            | some exc => exact h.advance hset (by simp) (by simp) (by simp) rfl rfl
          · cases hs
      · cases hs
  | eof =>
      simp only [Threads.step, Option.ite_none_right_eq_some, Option.some.injEq] at hs
      obtain ⟨_, rfl⟩ := hs
      exact h.advance (Settles.same _) (by simp) (by simp) (by simp) rfl rfl
  | readTimeout =>
      simp only [Threads.step, Option.ite_none_right_eq_some, Option.some.injEq] at hs
      obtain ⟨_, rfl⟩ := hs
      split
      · exact h.advance (Settles.same _) (by simp) (by simp) (by simp) rfl rfl
      · exact h
  | reader => exact h.reads hs
  | acquire =>
      obtain rfl := Option.some.inj hs
      exact h.settle (.acquire _) rfl rfl rfl
  | rst sid =>
      simp only [Threads.step, Option.ite_none_right_eq_some, Option.some.injEq] at hs
      obtain ⟨_, rfl⟩ := hs
      exact h.settle (.of_micros (Conn.Micros.sendRst s.conn sid : Conn.Micros .rst s.conn _)) rfl rfl rfl
  | pop sid =>
      obtain rfl := Option.some.inj hs
      exact h.settle (.of_obj List.erase_subset rfl) rfl rfl rfl
  | close =>
      obtain rfl := Option.some.inj hs
      exact h.settle (.close _) rfl rfl rfl

end Covered

-- When every stream is registered in time, `_fail_all` leaves none pending,
-- and a GOAWAY none above its last id.
theorem no_orphans (hp : Hpack ε δ) (fate : Nat → Option Nat) (acts : List Act) (s : Threads ε δ)
    (htime : Transition.Meets (step hp) (fun s a => s.inTime a) (start hp fate) acts)
    (hrun : Transition.run (step hp) (start hp fate) acts = some s) :
    (s.reader = .finished → ∀ sid ∈ s.conn.streams, (s.conn.obj sid).done = true) ∧
      ∀ last ∈ s.dispatched, ∀ sid ∈ s.conn.streams, last < sid → (s.conn.obj sid).done = true := by
  have hcovered := Transition.invariant Covered (fun s a next h htime hs => h.step htime hs)
    (Covered.init hp fate) htime hrun
  exact ⟨hcovered.finished, fun last hl => (hcovered.dispatched last hl).2⟩

theorem no_orphans_one_request :
    ∃ s, Transition.run (step recorder) (start recorder fun _ => none)
        [.check 0 getRequest, .allocate 0, .register 0, .write 0, .eof, .reader, .reader, .reader,
          .reader] = some s ∧
      s.conn.streams = [1] ∧ ∀ sid ∈ s.conn.streams, (s.conn.obj sid).done = true :=
  ⟨_, rfl, rfl, (no_orphans recorder (fun _ => none)
    [.check 0 getRequest, .allocate 0, .register 0, .write 0, .eof, .reader, .reader, .reader, .reader]
    _ (by decide) rfl).1 rfl⟩

-- The closed check comes before the reader's snapshot and the registration
-- behind it: the stream is in nobody's hands. GOAWAY loses one the same way.
theorem late_registration_orphans :
    (∃ s, Transition.run (step recorder) (start recorder fun _ => none)
        [.check 0 getRequest, .eof, .reader, .reader, .reader, .allocate 0, .register 0, .write 0] =
          some s ∧
      s.reader = .finished ∧ 1 ∈ s.conn.streams ∧ (s.conn.obj 1).done = false) ∧
    ∃ s, Transition.run (step recorder) (start recorder fun _ => none)
        [.check 0 getRequest, .frame ⟨.goaway, 0, 0, [0, 0, 0, 0, 0, 0, 0, 0]⟩, .reader, .reader,
          .allocate 0, .register 0, .write 0] = some s ∧
      0 ∈ s.dispatched ∧ 1 ∈ s.conn.streams ∧ (s.conn.obj 1).done = false :=
  ⟨⟨_, rfl, rfl, by decide, rfl⟩, ⟨_, rfl, by decide, by decide, rfl⟩⟩

end Threads

end NeverFox.H2
