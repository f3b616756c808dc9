import NeverFox.Lib.Tally
import NeverFox.Pool.Bound
import NeverFox.Pool.Wired

namespace NeverFox.Pool

open NeverFox.H2 NeverFox.Client Tally

variable {ε δ : Type}

-- The connection a caller has obtained and not yet finished its `_send` on.
def Caller.obtained : Caller → Option Nat
  | .closing _ (.hand conn) | .leaving _ conn => conn
  | .acquired _ i | .holding i => some i
  | _ => none

-- How many callers are between the two on a connection.
noncomputable def holders (s : State ε δ) (i : Nat) : ℕ∞ :=
  tally s.caller fun caller => caller.obtained = some i

-- Every reference is that of one such caller.
def Balanced (s : State ε δ) : Prop := ∀ i, ((s.conns i).refs : ℕ∞) = holders s i

-- The connection that a caller of a key comes by in the pool.
def candidate (s : State ε δ) (key : Key) : Option Nat := (s.evictClosed key).available key

-- A new connection does not refuse its first caller, and no caller is
-- cancelled with a connection in hand.
def accounts (s : State ε δ) : Act → Prop
  | .acquire t => ∀ key i, s.caller t = .fresh key i → (s.conns i).acquirable = true
  | .abandon t => ∀ i, s.caller t ≠ .holding i
  | _ => True

-- The call of acquire() that a step makes for its caller.
inductive Obtains (s : State ε δ) : Act → Nat → Prop
  | existingConn {t i : Nat} {key : Key} (h : candidate s key = some i) :
      Obtains s (.existingConn t key) i
  | scan {t i : Nat} {key : Key} (hc : s.caller t = .scanning key) (h : candidate s key = some i) :
      Obtains s (.scan t) i
  | acquire {t i : Nat} {key : Key} (hc : s.caller t = .fresh key i) : Obtains s (.acquire t) i

-- An event that neither acquires a connection nor sends on it.
def quiet : Event → Bool
  | .acquire | .send _ => false
  | _ => true

-- What a step does to the connections, with its caller's hand before and behind it.
inductive Hands (hp : Hpack ε δ) (s s' : State ε δ) (a : Act) (t : Nat) : Prop
  | still (hsame : (s'.caller t).obtained = (s.caller t).obtained) (hc : s'.conns = s.conns)
      (hok : accounts s a)
  | event (i : Nat) (e : Event) (c : Conn ε δ) (hq : quiet e)
      (hsame : (s'.caller t).obtained = (s.caller t).obtained)
      (hs : H2.step hp (s.conns i) e = some c) (hc : s'.conns = Function.update s.conns i c)
      (hf : ∀ f, e = .frame f → a = .frame i f) (hok : accounts s a)
  | made (fate : Nat → Option Nat) (hsame : (s'.caller t).obtained = (s.caller t).obtained)
      (hc : s'.conns = Function.update s.conns s.made (.init hp fate)) (hok : accounts s a)
  | take (i : Nat) (hold : (s.caller t).obtained = none) (hnew : (s'.caller t).obtained = some i)
      (hc : s'.conns = Function.update s.conns i (s.conns i).acquire) (hmade : i < s.made)
      (hby : Obtains s a i)
  | put (i : Nat) (args : SendArgs) (hold : (s.caller t).obtained = some i)
      (hnew : (s'.caller t).obtained = none)
      (hc : s'.conns = Function.update s.conns i ((s.conns i).send hp args).1) (hok : accounts s a)
  | drop (i : Nat) (hold : (s.caller t).obtained = some i) (hnew : (s'.caller t).obtained = none)
      (hc : s'.conns = s.conns) (hok : ¬accounts s a)

theorem conn_of_obtained {caller : Caller} {i : Nat} (h : caller.obtained = some i) :
    caller.conn = some i := by
  cases caller with
  | closing todo next => cases next <;> exact h
  | leaving | acquired | holding => exact h
  | _ => cases h

theorem candidate_acquirable {s : State ε δ} {key : Key} {i : Nat} (h : candidate s key = some i) :
    (s.conns i).acquirable = true :=
  List.find?_some (p := fun i => (s.conns i).acquirable) h

theorem candidate_pooled {s : State ε δ} {key : Key} {i : Nat} (h : candidate s key = some i) :
    i ∈ s.pooled key := ((Picks.evictClosed s key).pooled key).subset (State.available_mem h)

-- Only a new connection can refuse.
theorem obtains_accounts {s : State ε δ} {a : Act} {i : Nat} (h : Obtains s a i) :
    (s.conns i).acquirable = true ↔ accounts s a := by
  cases h with
  | existingConn hi => exact iff_of_true (candidate_acquirable hi) trivial
  | scan _ hi => exact iff_of_true (candidate_acquirable hi) trivial
  | @acquire t _ key hc =>
      constructor
      · intro hacq key' i' hc'
        obtain ⟨_, rfl⟩ := Caller.fresh.inj (hc.symm.trans hc')
        exact hacq
      · intro hok
        exact hok key i hc

-- `_existing_conn` acquires the candidate, if there is one.
theorem existingConn_hands (s : State ε δ) (t : Nat) (key : Key) :
    (s.existingConn t key).caller t = .closing s.dead (.hand none) ∧
        (s.existingConn t key).conns = s.conns ∨
      ∃ i, candidate s key = some i ∧
        (s.existingConn t key).caller t = .closing s.dead (.hand (some i)) ∧
        (s.existingConn t key).conns = Function.update s.conns i (s.conns i).acquire := by
  unfold State.existingConn
  split
  · exact .inl ⟨Function.update_self .., rfl⟩
  · dsimp only
    split
    · exact .inl ⟨Function.update_self .., rfl⟩
    · rename_i i hi
      exact .inr ⟨i, hi, Function.update_self .., rfl⟩

-- So does a round of `_get_conn`.
theorem scan_hands (s : State ε δ) (t : Nat) (key : Key) :
    ((s.scan t key).caller t).obtained = none ∧ (s.scan t key).conns = s.conns ∨
      ∃ i, candidate s key = some i ∧ (s.scan t key).caller t = .holding i ∧
        (s.scan t key).conns = Function.update s.conns i (s.conns i).acquire := by
  unfold State.scan
  dsimp only
  split
  · rename_i i hi
    exact .inr ⟨i, hi, Function.update_self .., rfl⟩
  · split
    · exact .inl ⟨by rw [State.setCaller_caller, Function.update_self]; rfl, rfl⟩
    · exact .inl ⟨by rw [State.setCaller_caller, Function.update_self]; rfl, rfl⟩

theorem caller_update {s s' : State ε δ} {t : Nat} {caller : Caller}
    (h : s'.caller = Function.update s.caller t caller) :
    s'.caller = Function.update s.caller t (s'.caller t) := by
  rw [h, Function.update_self]

-- One caller moves on in a step, and one connection changes with it.
theorem step_hands {hp : Hpack ε δ} {s s' : State ε δ} {a : Act} (hknown : Known s)
    (hstep : s.step hp a = some s') :
    ∃ t, s'.caller = Function.update s.caller t (s'.caller t) ∧ Hands hp s s' a t := by
  have hnone : ∀ t, s'.caller = s.caller → s'.caller = Function.update s.caller t (s'.caller t) := by
    intro t hc
    rw [hc, Function.update_eq_self]
  cases step_happens hstep with
  | @existingConn t key hc =>
      have hold : (s.caller t).obtained = none := by rw [hc]; rfl
      obtain ⟨picked, conn, _, _, hcaller, he, _⟩ := existingConn_picks s t key
      refine ⟨t, caller_update (by rw [he, State.setCaller_caller, hcaller]), ?_⟩
      rcases existingConn_hands s t key with ⟨hnew, hconns⟩ | ⟨i, hi, hnew, hconns⟩
      · exact .still (by rw [hnew, hold]; rfl) hconns trivial
      · exact .take i hold (by rw [hnew]; rfl) hconns (hknown.pooled key i (candidate_pooled hi))
          (.existingConn hi)
  | @scan t key hc =>
      have hold : (s.caller t).obtained = none := by rw [hc]; rfl
      obtain ⟨picked, _, hcaller, hcase⟩ := scan_picks s t key
      have hupd : (s.scan t key).caller = Function.update s.caller t ((s.scan t key).caller t) := by
        rcases hcase with ⟨_, _, _, he⟩ | ⟨_, he⟩ | ⟨_, _, he⟩ <;>
          exact caller_update (by rw [he, State.setCaller_caller, hcaller])
      refine ⟨t, hupd, ?_⟩
      rcases scan_hands s t key with ⟨hnew, hconns⟩ | ⟨i, hi, hnew, hconns⟩
      · exact .still (by rw [hnew, hold]) hconns trivial
      · exact .take i hold (by rw [hnew]; rfl) hconns (hknown.pooled key i (candidate_pooled hi))
          (.scan hc hi)
  | @getConn t key hc =>
      refine ⟨t, caller_update rfl, .still ?_ rfl trivial⟩
      simp [State.reap, hc, Caller.obtained]
  | @close t hc =>
      refine ⟨t, caller_update rfl, .still ?_ rfl trivial⟩
      simp [State.reap, hc, Caller.obtained]
  | @closeOne t i todo next hc =>
      refine ⟨t, caller_update rfl, .event i .close _ rfl ?_ rfl rfl (by simp) trivial⟩
      cases next <;> simp [hc, Caller.obtained]
  | @proceed t next hc =>
      rcases next with key | _ | ⟨_ | i⟩ <;>
        exact ⟨t, caller_update rfl, .still (by simp [State.proceed, State.hand, hc, Caller.obtained]) rfl
          trivial⟩
  | @clear t hc =>
      refine ⟨t, caller_update rfl, .still ?_ rfl trivial⟩
      simp [hc, Caller.obtained]
  | @wake t key hc =>
      exact ⟨t, caller_update rfl, .still (by simp [hc, Caller.obtained]) rfl trivial⟩
  | @connect t key outcome hc =>
      cases outcome with
      | failed | http1 =>
          exact ⟨t, caller_update rfl, .still (by simp [State.connect, hc, Caller.obtained]) rfl trivial⟩
      | h2 fate =>
          exact ⟨t, caller_update rfl, .made fate (by simp [State.connect, hc, Caller.obtained]) rfl trivial⟩
  | @acquire t i key hc =>
      refine ⟨t, caller_update rfl, .take i (by rw [hc]; rfl) (by simp [Caller.obtained]) rfl
        (hknown.held t i (by rw [hc]; rfl)) (.acquire hc)⟩
  | @insert t i key hc =>
      exact ⟨t, caller_update rfl, .still (by simp [State.insert, hc, Caller.obtained]) rfl trivial⟩
  | @leave t key conn hc =>
      cases conn <;>
        exact ⟨t, caller_update rfl, .still (by simp [State.hand, hc, Caller.obtained]) rfl trivial⟩
  | @send t i args hc =>
      obtain ⟨caller, he, hcaller⟩ := send_eq hp s t i args
      refine ⟨t, caller_update (by rw [he, State.setCaller_caller]; rfl), .put i args (by rw [hc]; rfl) ?_
        (by rw [he]; rfl) trivial⟩
      rw [he, State.setCaller_caller, Function.update_self]
      rcases hcaller with rfl | ⟨sid, rfl, _⟩ <;> rfl
  | @abandon t i hc =>
      refine ⟨t, caller_update rfl, .drop i (by rw [hc]; rfl) (by simp [Caller.obtained]) rfl ?_⟩
      exact fun h => h i hc
  | @done t i sid hc _ =>
      exact ⟨t, caller_update rfl, .still (by simp [hc, Caller.obtained]) rfl trivial⟩
  | @expire t i sid hc =>
      exact ⟨t, caller_update rfl, .event i (.rst sid) _ rfl (by simp [hc, Caller.obtained]) rfl rfl
        (by simp) trivial⟩
  | @finish t i sid hc =>
      exact ⟨t, caller_update rfl, .event i (.pop sid) _ rfl (by simp [State.finish, hc, Caller.obtained])
        rfl rfl (by simp) trivial⟩
  | @drop t i sid hc =>
      exact ⟨t, caller_update rfl, .event i (.pop sid) _ rfl (by simp [hc, Caller.obtained]) rfl rfl
        (by simp) trivial⟩
  | @frame i f c _ hs =>
      exact ⟨0, hnone 0 rfl, .event i (.frame f) c rfl rfl hs rfl (by rintro _ ⟨⟩; rfl) trivial⟩
  | @eof i c _ hs => exact ⟨0, hnone 0 rfl, .event i .eof c rfl rfl hs rfl (by simp) trivial⟩
  | @readTimeout i c _ hs =>
      exact ⟨0, hnone 0 rfl, .event i .readTimeout c rfl rfl hs rfl (by simp) trivial⟩

section Holders

variable {s s' : State ε δ} {t : Nat} {caller : Caller}

-- How a step moves the count of a connection.
theorem holders_stay (hcaller : s'.caller = Function.update s.caller t caller)
    (hsame : caller.obtained = (s.caller t).obtained) (j : Nat) : holders s' j = holders s j := by
  unfold holders
  rw [hcaller]
  exact tally_stay (by rw [hsame])

theorem holders_enter (hcaller : s'.caller = Function.update s.caller t caller) {i : Nat}
    (hold : (s.caller t).obtained = none) (hnew : caller.obtained = some i) (j : Nat) :
    holders s' j = if j = i then holders s j + 1 else holders s j := by
  unfold holders
  rw [hcaller]
  split
  · rename_i hj
    subst hj
    exact tally_enter (by rw [hold]; simp) hnew
  · rename_i hj
    exact tally_stay (by simp [hold, hnew, Ne.symm hj])

theorem holders_leave (hcaller : s'.caller = Function.update s.caller t caller) {i : Nat}
    (hold : (s.caller t).obtained = some i) (hnew : caller.obtained = none) (j : Nat) :
    if j = i then holders s' j + 1 = holders s j else holders s' j = holders s j := by
  unfold holders
  rw [hcaller]
  split
  · rename_i hj
    subst hj
    exact tally_leave hold (by rw [hnew]; simp)
  · rename_i hj
    exact tally_stay (by simp [hold, hnew, Ne.symm hj])

-- Nobody has obtained a connection that is still to be made.
theorem holders_unmade (h : Known s) : holders s s.made = 0 :=
  tally_none fun t ht => Nat.lt_irrefl _ (h.held t s.made (conn_of_obtained ht))

end Holders

-- Neither the reader nor a close, a reset or a pop touches the count.
theorem refs_quiet {hp : Hpack ε δ} {c c' : Conn ε δ} {e : Event} (hq : quiet e)
    (hs : H2.step hp c e = some c') : c'.refs = c.refs := by
  cases H2.step_happens hs with
  | frame f => exact (Conn.kept_dispatch hp c f).refs
  | raised f exc => exact (Conn.stable_exitReader _ exc).refs.trans (Conn.kept_dispatch hp c f).refs
  | eof | stopped => exact (Conn.stable_exitReader _ _).refs
  | rst sid => exact (Conn.kept_sendRst c sid).refs
  | close => exact (Conn.stable_close c).refs
  | idle | pop => rfl
  | acquire | refused | send => cases hq

theorem refs_send (hp : Hpack ε δ) (c : Conn ε δ) (args : SendArgs) :
    (c.send hp args).1.refs = c.refs - 1 := by
  have hkept : (c.trySend hp args).1.refs = c.refs := by
    rcases c.trySend_cases hp args with ⟨_, exc, he⟩ | ⟨fields, _, _, he⟩
    · rw [he]
    · obtain ⟨writes, hm⟩ := (c.allocate.register c.nextId args.maxBytes).emit_state hp c.nextId fields
        args.body
      rw [he, hm]
      rfl
  rw [Conn.send_fst, Conn.release, hkept]

-- A step keeps the balance exactly when it accounts for what it does.
theorem balanced_step {hp : Hpack ε δ} {s s' : State ε δ} {a : Act} (hknown : Known s)
    (h : Balanced s) (hstep : s.step hp a = some s') : Balanced s' ↔ accounts s a := by
  obtain ⟨t, hcaller, hhands⟩ := step_hands hknown hstep
  cases hhands with
  | still hsame hc hok =>
      refine iff_of_true (fun j => ?_) hok
      rw [hc, holders_stay hcaller hsame]
      exact h j
  | event i e c hq hsame hs hc _ hok =>
      refine iff_of_true (fun j => ?_) hok
      rw [hc, holders_stay hcaller hsame, ← h j]
      by_cases hj : j = i
      · subst hj
        rw [Function.update_self, refs_quiet hq hs]
      · rw [Function.update_of_ne hj]
  | made fate hsame hc hok =>
      refine iff_of_true (fun j => ?_) hok
      rw [hc, holders_stay hcaller hsame]
      by_cases hj : j = s.made
      · subst hj
        rw [Function.update_self, holders_unmade hknown]
        rfl
      · rw [Function.update_of_ne hj]
        exact h j
  | take i hold hnew hc _ hby =>
      have hholders := holders_enter hcaller hold hnew
      rw [← obtains_accounts hby]
      constructor
      · intro hb
        -- A refused acquire leaves the count below the number of holders.
        by_contra hrefused
        have hi := hb i
        have hacquire : (s.conns i).acquire = s.conns i := if_neg hrefused
        rw [hc, Function.update_self, hacquire, hholders, if_pos rfl, ← h i] at hi
        have hn : (s.conns i).refs = (s.conns i).refs + 1 := by exact_mod_cast hi
        omega
      · intro hacq j
        have hacquire : (s.conns i).acquire = { s.conns i with refs := (s.conns i).refs + 1 } :=
          if_pos hacq
        rw [hc, hholders, ← h j, hacquire]
        by_cases hj : j = i
        · subst hj
          simp
        · simp [hj]
  | put i args hold hnew hc hok =>
      refine iff_of_true (fun j => ?_) hok
      have hholders := holders_leave hcaller hold hnew j
      rw [hc]
      split at hholders
      · rename_i hj
        subst hj
        rw [← h j] at hholders
        obtain ⟨n, hn, hrefs⟩ := eq_of_add_one hholders
        rw [Function.update_self, refs_send, hn, ← hrefs]
        rfl
      · rename_i hj
        rw [Function.update_of_ne hj, hholders]
        exact h j
  | drop i hold hnew hc hok =>
      refine iff_of_false (fun hb => ?_) hok
      have hholders := holders_leave hcaller hold hnew i
      rw [if_pos rfl, ← hb i, ← h i, hc] at hholders
      have hn : (s.conns i).refs + 1 = (s.conns i).refs := by exact_mod_cast hholders
      omega

-- A hand-out takes one reference, the end of its send gives one back, and
-- nothing else changes the number.
structure Exact (s s' : State ε δ) : Prop where
  out : ∀ t i, (s.caller t).obtained ≠ some i → (s'.caller t).obtained = some i →
    (s'.conns i).refs = (s.conns i).refs + 1
  back : ∀ t i, (s.caller t).obtained = some i → (s'.caller t).obtained ≠ some i →
    (s'.conns i).refs + 1 = (s.conns i).refs
  else_same : (∀ t, (s'.caller t).obtained = (s.caller t).obtained) →
    ∀ i, (s'.conns i).refs = (s.conns i).refs

theorem exact_step {hp : Hpack ε δ} {s s' : State ε δ} {a : Act} (hknown : Known s) (h : Balanced s)
    (hstep : s.step hp a = some s') (h' : Balanced s') : Exact s s' := by
  obtain ⟨t, hcaller, _⟩ := step_hands hknown hstep
  -- Only the caller that moves can come by or lose a connection.
  have hmoved : ∀ other, (s'.caller other).obtained ≠ (s.caller other).obtained → other = t := by
    intro other hne
    by_contra ho
    rw [hcaller, Function.update_of_ne ho] at hne
    exact hne rfl
  refine ⟨?_, ?_, ?_⟩
  · intro other i hold hnew
    obtain rfl := hmoved other (by rw [hnew]; exact Ne.symm hold)
    have henter : holders s' i = holders s i + 1 := by
      unfold holders
      rw [hcaller]
      exact tally_enter hold hnew
    rw [← h i, ← h' i] at henter
    exact_mod_cast henter
  · intro other i hold hnew
    obtain rfl := hmoved other (by rw [hold]; exact hnew)
    have hleave : holders s' i + 1 = holders s i := by
      unfold holders
      rw [hcaller]
      exact tally_leave hold hnew
    rw [← h i, ← h' i] at hleave
    exact_mod_cast hleave
  · intro hsame i
    have hstay := holders_stay hcaller (hsame t) i
    rw [← h i, ← h' i] at hstay
    exact_mod_cast hstay

-- The count is that of the callers between their acquire and the end of their
-- send all along a run exactly when no new connection refuses its first
-- caller and no caller is cancelled with a connection in hand.
theorem refs_balanced_iff (hp : Hpack ε δ) (maxConns : Nat) (acts : List Act) (s : State ε δ)
    (hrun : Transition.run (State.step hp) (.start hp maxConns) acts = some s) :
    (∀ pre mid, pre <+: acts → Transition.run (State.step hp) (.start hp maxConns) pre = some mid →
      Balanced mid ∧ ∀ a next, pre ++ [a] <+: acts → mid.step hp a = some next → Exact mid next) ↔
    Transition.Meets (State.step hp) accounts (.start hp maxConns) acts := by
  have hstart : Balanced (State.start hp maxConns) :=
    fun i => (tally_none fun t => by simp [State.start, Caller.obtained]).symm
  have hiff := Transition.always_iff Known Balanced
    (fun s a next hknown h hs => ⟨hknown.step hs, balanced_step hknown h hs⟩)
    (Known.start hp maxConns) hstart hrun
  rw [← hiff]
  constructor
  · intro h pre mid hpre hmid
    exact (h pre mid hpre hmid).1
  · intro h pre mid hpre hmid
    refine ⟨h pre mid hpre hmid, fun a next ha hs => ?_⟩
    have hknown : Known mid := Transition.invariant_always Known (fun s a next hk hs => hk.step hs)
      (Known.start hp maxConns) hmid
    have hnext := h (pre ++ [a]) next ha (by rw [Transition.run_append, hmid]; simp [Transition.run, hs])
    exact exact_step hknown (h pre mid hpre hmid) hs hnext

theorem refs_balanced_request :
    ∃ s, Transition.run (State.step recorder) (.start recorder 6) firstRequest = some s ∧
      Balanced s ∧ (s.conns 0).refs = 0 := by
  refine ⟨_, rfl, ?_, by decide⟩
  refine ((refs_balanced_iff recorder 6 firstRequest _ rfl).mpr ?_ firstRequest _ (List.prefix_refl _)
    rfl).1
  exact ⟨trivial, trivial, trivial, trivial,
    fun _ _ h => (Caller.fresh.inj (h : Caller.fresh originKey 0 = _)).2 ▸ rfl, trivial, trivial, trivial,
    trivial⟩

-- The first caller is cancelled as its connection is handed over.
def cancelled : List Act :=
  [.getConn 0 originKey, .closeNext 0, .scan 0, .connect 0 (.h2 fun _ => none), .acquire 0, .insert 0,
    .leave 0, .abandon 0]

def streamLimit (limit : Nat) : Frame := ⟨.settings, 0, 0, [0, 3] ++ packU32 limit⟩

-- The peer's first frame allows no stream, the next one does; then a second
-- caller takes the connection, and the first one sends.
def refusedFirst : List Act :=
  [.getConn 0 originKey, .closeNext 0, .scan 0, .connect 0 (.h2 fun _ => none), .frame 0 (streamLimit 0),
    .acquire 0, .insert 0, .leave 0, .frame 0 (streamLimit 100), .existingConn 1 originKey,
    .send 0 getRequest]

theorem references_go_astray :
    (∃ s, Transition.run (State.step recorder) (.start recorder 6) cancelled = some s ∧
      (s.conns 0).refs = 1 ∧ holders s 0 = 0) ∧
    ∃ s, Transition.run (State.step recorder) (.start recorder 6) refusedFirst = some s ∧
      (s.conns 0).refs = 0 ∧ (s.caller 1).obtained = some 0 ∧ holders s 0 ≠ 0 := by
  refine ⟨⟨_, rfl, by decide, tally_none fun t => ?_⟩, ⟨_, rfl, by decide, by decide, ?_⟩⟩
  · cases t with
    | zero => decide
    | succ n =>
        change ¬(none : Option Nat) = some 0
        simp
  · exact tally_pos (i := 1) (by decide)

end NeverFox.Pool
