import NeverFox.Pool.Bound

namespace NeverFox.Pool

open NeverFox.H2 NeverFox.Client

variable {ε δ : Type}

-- One caller connects for a key at a time, and `_creating` has exactly the keys
-- that somebody connects for.
structure SingleFlight (s : State ε δ) : Prop where
  single : ∀ t t' key, (s.caller t).connects = some key → (s.caller t').connects = some key → t = t'
  creating : ∀ key, key ∈ s.creating ↔ ∃ t, (s.caller t).connects = some key
  nodup : s.creating.Nodup

-- What a step does about the connectors: nothing, or one caller becomes one in a
-- round of `_get_conn`, or one discards its key.
inductive Turn (s s' : State ε δ) (a : Act) : Prop
  | keep (hcreating : s'.creating = s.creating)
      (hsame : ∀ t, (s'.caller t).connects = (s.caller t).connects)
  | enter (t : Nat) (key : Key) (ha : a = .scan t) (hc : s.caller t = .scanning key)
      (he : s' = s.scan t key) (hnew : key ∉ s.creating) (hcreating : s'.creating = key :: s.creating)
      (hcaller : s'.caller = Function.update s.caller t (.connecting key))
  | leave (t : Nat) (key : Key) (caller : Caller) (hkey : (s.caller t).connects = some key)
      (hcreating : s'.creating = s.creating.erase key)
      (hcaller : s'.caller = Function.update s.caller t caller) (hnone : caller.connects = none)

theorem Turn.move {s s' : State ε δ} {a : Act} {t : Nat} {caller : Caller}
    (hcreating : s'.creating = s.creating) (hcaller : s'.caller = Function.update s.caller t caller)
    (hsame : caller.connects = (s.caller t).connects) : Turn s s' a := by
  refine .keep hcreating fun other => ?_
  rw [hcaller]
  by_cases ho : other = t
  · subst ho
    rw [Function.update_self, hsame]
  · rw [Function.update_of_ne ho]

theorem step_turns {hp : Hpack ε δ} {s s' : State ε δ} {a : Act} (hstep : s.step hp a = some s') :
    Turn s s' a := by
  cases step_happens hstep with
  | @existingConn t key hc =>
      obtain ⟨picked, conn, _, hcreating, hcaller, he, _⟩ := existingConn_picks s t key
      rw [he]
      exact .move hcreating (State.setCaller_update hcaller t _) (by rw [hc]; rfl)
  | @scan t key hc =>
      obtain ⟨picked, _, hcaller, hcase⟩ := scan_picks s t key
      have hupdate := State.setCaller_update hcaller t
      rcases hcase with ⟨i, _, hcreating, he⟩ | ⟨hcreating, he⟩ | ⟨hnew, hcreating, he⟩ <;> rw [he]
      · exact .move hcreating (hupdate _) (by rw [hc]; rfl)
      · exact .move hcreating (hupdate _) (by rw [hc]; rfl)
      · exact .enter t key rfl hc he.symm hnew hcreating (hupdate _)
  | @proceed t next hc =>
      rcases next with key | _ | ⟨_ | i⟩ <;> exact .move rfl rfl (by rw [hc]; rfl)
  | @connect t key outcome hc =>
      cases outcome <;> exact .move rfl rfl (by rw [hc]; rfl)
  | @leave t key conn hc =>
      cases conn <;> exact .leave t key _ (by rw [hc]; rfl) rfl rfl rfl
  | @send t i args hc =>
      obtain ⟨caller, he, hcaller⟩ := send_eq hp s t i args
      rw [he]
      rcases hcaller with rfl | ⟨sid, rfl, _⟩ <;> exact .move rfl rfl (by rw [hc]; rfl)
  | frame _ _ | eof _ _ | readTimeout _ _ => exact .keep rfl fun _ => rfl
  | getConn _ hc | close hc | closeOne hc | clear hc | wake hc | acquire hc | insert hc | abandon hc
  | done hc _ | expire hc | finish hc | drop hc => exact .move rfl rfl (by rw [hc]; rfl)

namespace SingleFlight

variable {hp : Hpack ε δ} {s s' : State ε δ}

theorem start (hp : Hpack ε δ) (maxConns : Nat) : SingleFlight (State.start hp maxConns) := by
  refine ⟨?_, ?_, List.nodup_nil⟩
  · intro t t' key h
    cases h
  · intro key
    exact ⟨fun h => absurd h List.not_mem_nil, by rintro ⟨t, h⟩; cases h⟩

-- Nothing changes for callers that connect for the keys they did before.
theorem keep (h : SingleFlight s) (hcreating : s'.creating = s.creating)
    (hsame : ∀ t, (s'.caller t).connects = (s.caller t).connects) : SingleFlight s' := by
  refine ⟨?_, ?_, hcreating ▸ h.nodup⟩
  · intro t t' key ht ht'
    exact h.single t t' key (hsame t ▸ ht) (hsame t' ▸ ht')
  · intro key
    simp only [hcreating, hsame, h.creating]

-- The caller that adds a key is the only one to connect for it.
theorem enter (h : SingleFlight s) {t : Nat} {key : Key} (hnone : (s.caller t).connects = none)
    (hnew : key ∉ s.creating) (hcreating : s'.creating = key :: s.creating)
    (hcaller : s'.caller = Function.update s.caller t (.connecting key)) : SingleFlight s' := by
  have hfree : ∀ other, (s.caller other).connects ≠ some key :=
    fun other ho => hnew ((h.creating key).mpr ⟨other, ho⟩)
  have hconnects : ∀ other, (s'.caller other).connects =
      if other = t then some key else (s.caller other).connects := by
    intro other
    rw [hcaller]
    by_cases ho : other = t
    · subst ho
      simp [Caller.connects]
    · simp [ho]
  refine ⟨?_, ?_, hcreating ▸ List.nodup_cons.mpr ⟨hnew, h.nodup⟩⟩
  · intro t₁ t₂ found h₁ h₂
    rw [hconnects] at h₁ h₂
    split at h₁ <;> split at h₂
    · simp_all
    · cases h₁
      exact absurd h₂ (hfree t₂)
    · cases h₂
      exact absurd h₁ (hfree t₁)
    · exact h.single t₁ t₂ found h₁ h₂
  · intro found
    rw [hcreating, List.mem_cons, h.creating]
    constructor
    · rintro (rfl | ⟨other, ho⟩)
      · exact ⟨t, by rw [hconnects, if_pos rfl]⟩
      · refine ⟨other, ?_⟩
        rw [hconnects, if_neg, ho]
        rintro rfl
        rw [hnone] at ho
        cases ho
    · rintro ⟨other, ho⟩
      rw [hconnects] at ho
      split at ho
      · exact .inl (Option.some.inj ho).symm
      · exact .inr ⟨other, ho⟩

-- The caller that discards its key leaves none behind for it.
theorem leave (h : SingleFlight s) {t : Nat} {key : Key} {caller : Caller}
    (hkey : (s.caller t).connects = some key) (hcreating : s'.creating = s.creating.erase key)
    (hcaller : s'.caller = Function.update s.caller t caller) (hnone : caller.connects = none) :
    SingleFlight s' := by
  have hconnects : ∀ other, (s'.caller other).connects =
      if other = t then none else (s.caller other).connects := by
    intro other
    rw [hcaller]
    by_cases ho : other = t
    · subst ho
      simp [hnone]
    · simp [ho]
  refine ⟨?_, ?_, hcreating ▸ h.nodup.erase key⟩
  · intro t₁ t₂ found h₁ h₂
    rw [hconnects] at h₁ h₂
    split at h₁
    · cases h₁
    · split at h₂
      · cases h₂
      · exact h.single t₁ t₂ found h₁ h₂
  · intro found
    rw [hcreating, h.nodup.mem_erase_iff, h.creating]
    constructor
    · rintro ⟨hne, other, ho⟩
      refine ⟨other, ?_⟩
      rw [hconnects, if_neg, ho]
      rintro rfl
      exact hne (Option.some.inj (ho.symm.trans hkey))
    · rintro ⟨other, ho⟩
      rw [hconnects] at ho
      split at ho
      · cases ho
      · rename_i hother
        refine ⟨?_, other, ho⟩
        rintro rfl
        exact hother (h.single other t found ho hkey)

theorem step (h : SingleFlight s) {a : Act} (hstep : s.step hp a = some s') : SingleFlight s' := by
  cases step_turns hstep with
  | keep hcreating hsame => exact h.keep hcreating hsame
  | enter t key _ hc _ hnew hcreating hcaller =>
      exact h.enter (by rw [hc]; rfl) hnew hcreating hcaller
  | leave t key caller hkey hcreating hcaller hnone => exact h.leave hkey hcreating hcaller hnone

end SingleFlight

-- The section that makes a caller the connector found nothing to acquire.
theorem scan_refused {s : State ε δ} {t : Nat} {key : Key}
    (h : (s.scan t key).caller t = .connecting key) :
    key ∉ s.creating ∧ ∀ i ∈ s.pooled key, (s.conns i).acquirable = false := by
  unfold State.scan at h
  dsimp only at h
  split at h
  · simp at h
  · rename_i hnone
    split at h
    · simp at h
    · rename_i hnew
      refine ⟨hnew, fun i hi => ?_⟩
      cases hclosed : (s.conns i).closed with
      | true => simp [Conn.acquirable, hclosed]
      | false =>
          have hkept : i ∈ (s.evictClosed key).pooled key := by
            rw [State.evictClosed_pooled, if_pos rfl]
            exact List.mem_filter.mpr ⟨hi, by simp [hclosed]⟩
          have hmem : i ∈ (s.evictClosed key).leastLoaded ((s.evictClosed key).pooled key) :=
            (List.perm_insertionSort _ _).mem_iff.mpr hkept
          have hrefused := List.find?_eq_none.mp hnone i hmem
          exact Bool.eq_false_iff.mpr hrefused

-- Only a round of `_get_conn` makes a caller connect.
theorem connects_step {hp : Hpack ε δ} {s s' : State ε δ} {a : Act} (hstep : s.step hp a = some s')
    {t : Nat} {key : Key} (hbefore : (s.caller t).connects ≠ some key)
    (hafter : (s'.caller t).connects = some key) :
    a = .scan t ∧ s.caller t = .scanning key ∧ (s.scan t key).caller t = .connecting key := by
  cases step_turns hstep with
  | keep _ hsame => exact absurd (hsame t ▸ hafter) hbefore
  | enter u found ha hc he _ _ hcaller =>
      by_cases hu : t = u
      · subst hu
        rw [hcaller, Function.update_self] at hafter
        obtain rfl : found = key := Option.some.inj hafter
        exact ⟨ha, hc, by rw [← he, hcaller, Function.update_self]⟩
      · rw [hcaller, Function.update_of_ne hu] at hafter
        exact absurd hafter hbefore
  | leave u found caller _ _ hcaller hnone =>
      rw [hcaller] at hafter
      by_cases hu : t = u
      · subst hu
        rw [Function.update_self, hnone] at hafter
        cases hafter
      · rw [Function.update_of_ne hu] at hafter
        exact absurd hafter hbefore

-- Whoever waits for a key that nobody connects for goes on in its next round.
theorem scan_free {s : State ε δ} {t : Nat} {key : Key} (hfree : key ∉ s.creating) :
    (∃ i, (s.scan t key).caller t = .holding i) ∨ (s.scan t key).caller t = .connecting key := by
  unfold State.scan
  dsimp only
  split
  · rename_i i _
    exact .inl ⟨i, by simp⟩
  · rw [if_neg hfree]
    exact .inr (by simp)

-- In every state that the session can come to, one caller at most connects for
-- a key; `_creating` is the set of the keys that are connected for; a caller
-- takes that role only in a section in which every connection pooled for the
-- key refuses; and a caller that is done with it, having failed or not, leaves
-- the key free, so that a waiter gets a connection or takes the role next.
theorem single_flight (hp : Hpack ε δ) (maxConns : Nat) (acts : List Act) (s : State ε δ)
    (hrun : Transition.run (State.step hp) (State.start hp maxConns) acts = some s) :
    (∀ t t' key, (s.caller t).connects = some key → (s.caller t').connects = some key → t = t') ∧
    (s.creating.Nodup ∧ ∀ key, key ∈ s.creating ↔ ∃ t, (s.caller t).connects = some key) ∧
    (∀ a s' t key, s.step hp a = some s' → (s.caller t).connects ≠ some key →
      (s'.caller t).connects = some key →
        a = .scan t ∧ key ∉ s.creating ∧ ∀ i ∈ s.pooled key, (s.conns i).acquirable = false) ∧
    ∀ t key conn, s.caller t = .leaving key conn → ∃ s', s.step hp (.leave t) = some s' ∧
      key ∉ s'.creating ∧ ∀ waiter, s.caller waiter = .waiting key → ∃ s₁ s₂,
        s'.step hp (.wake waiter) = some s₁ ∧ s₁.step hp (.scan waiter) = some s₂ ∧
          ((∃ i, s₂.caller waiter = .holding i) ∨ s₂.caller waiter = .connecting key) := by
  have h : SingleFlight s := Transition.invariant_always SingleFlight (fun _ _ _ hi hs => hi.step hs)
    (.start hp maxConns) hrun
  refine ⟨h.single, ⟨h.nodup, h.creating⟩, ?_, ?_⟩
  · intro a s' t key hstep hbefore hafter
    obtain ⟨ha, _, hconnecting⟩ := connects_step hstep hbefore hafter
    exact ⟨ha, scan_refused hconnecting⟩
  · intro t key conn hc
    have hgone : key ∉ s.creating.erase key := by simp [h.nodup.mem_erase_iff]
    refine ⟨({ s with creating := s.creating.erase key } : State ε δ).hand t conn,
      by simp only [State.step, hc], ?_, ?_⟩
    · cases conn <;> exact hgone
    · intro waiter hw
      have hne : waiter ≠ t := by
        rintro rfl
        rw [hw] at hc
        cases hc
      generalize hleft : ({ s with creating := s.creating.erase key } : State ε δ).hand t conn = left
      have hwaiting : left.caller waiter = .waiting key := by
        subst hleft
        cases conn <;> simp [State.hand, hne, hw]
      have hfree : key ∉ left.creating := by
        subst hleft
        cases conn <;> exact hgone
      have hscanning : (left.setCaller waiter (.scanning key)).caller waiter = .scanning key := by simp
      refine ⟨left.setCaller waiter (.scanning key), (left.setCaller waiter (.scanning key)).scan waiter key,
        by simp only [State.step, hwaiting], by simp only [State.step, hscanning], ?_⟩
      exact scan_free (s := left.setCaller waiter (.scanning key)) hfree

theorem single_flight_cold_host :
    ∃ s, Transition.run (State.step recorder) (State.start recorder 6)
        [.getConn 0 originKey, .closeNext 0, .scan 0] = some s ∧
      s.caller 0 = .connecting originKey ∧ s.creating = [originKey] ∧
      ∀ t, (s.caller t).connects = some originKey → t = 0 :=
  ⟨_, rfl, rfl, rfl, fun t ht => (single_flight recorder 6
    [.getConn 0 originKey, .closeNext 0, .scan 0] _ rfl).1 t 0 originKey ht rfl⟩

end NeverFox.Pool
