import NeverFox.Pool.Refs

namespace NeverFox.Pool

open NeverFox.H2 NeverFox.Client Tally

variable {ε δ : Type}

-- The limit that holds once a frame has been dispatched.
def limitAfter (c : Conn ε δ) (f : Frame) : Nat :=
  if f.ftype = .settings ∧ f.has F_ACK = false then (Conn.readSettings f.payload c.maxConcurrent).1
  else c.maxConcurrent

-- The peer does not lower its limit while a stream is open or a caller is
-- on its way to open one.
def keepsLimit (s : State ε δ) : Act → Prop
  | .frame i f => (s.conns i).maxConcurrent ≤ limitAfter (s.conns i) f ∨
      (s.conns i).streams = [] ∧ ∀ t, (s.caller t).obtained ≠ some i
  | _ => True

-- There is a stream and an id left for one more caller, once each of those on
-- their way has taken its own.
def Room (s : State ε δ) (i : Nat) : Prop :=
  ∃ n : ℕ, holders s i = n ∧ (s.conns i).streams.length + n < (s.conns i).maxConcurrent ∧
    (s.conns i).nextId + 2 * n < 2 ^ 31

-- Whoever comes by a connection finds room on it.
def admits (s : State ε δ) (a : Act) : Prop := ∀ i, Obtains s a i → Room s i

-- Streams and callers on their way together stay within the limits.
structure Fits (s : State ε δ) (i n : Nat) : Prop where
  count : holders s i = n
  limit : (s.conns i).streams.length + n ≤ (s.conns i).maxConcurrent
  ids : (s.conns i).nextId + 2 * n ≤ 2 ^ 31 + 1
  odd : (s.conns i).nextId % 2 = 1
  below : ∀ sid ∈ (s.conns i).streams, sid + 2 ≤ (s.conns i).nextId

def Fitting (s : State ε δ) : Prop := ∀ i, ∃ n, Fits s i n

theorem maxConcurrent_failItems (c : Conn ε δ) (exc : Exn) (pick : Nat → Bool) (items : List Nat) :
    (c.failItems exc pick items).maxConcurrent = c.maxConcurrent := by
  rw [Conn.failItems_eq]

theorem maxConcurrent_sendRst (c : Conn ε δ) (sid : Nat) :
    (c.sendRst sid).maxConcurrent = c.maxConcurrent := by
  rcases c.sendRst_eq sid with he | he <;> rw [he]
  rfl

theorem maxConcurrent_settleData (c : Conn ε δ) (f : Frame) :
    (c.settleData f).maxConcurrent = c.maxConcurrent := by
  unfold Conn.settleData
  dsimp only
  split
  · exact maxConcurrent_sendRst c f.sid
  · split <;> rfl

theorem maxConcurrent_finishHeaders (hp : Hpack ε δ) (c : Conn ε δ) :
    (c.finishHeaders hp).1.maxConcurrent = c.maxConcurrent := by
  unfold Conn.finishHeaders
  split
  · rfl
  · dsimp only
    split
    · rfl
    · split
      · rfl
      · split <;> rfl

theorem maxConcurrent_dispatch (hp : Hpack ε δ) (c : Conn ε δ) (f : Frame) :
    (c.dispatch hp f).1.maxConcurrent = limitAfter c f := by
  unfold Conn.dispatch limitAfter
  split <;> rename_i ht <;> simp only [ht, reduceCtorEq, false_and, true_and, ↓reduceIte]
  · unfold Conn.onHeaders
    split
    · exact maxConcurrent_finishHeaders hp _
    · rfl
  · unfold Conn.onContinuation
    dsimp only
    split
    · exact maxConcurrent_finishHeaders hp _
    · rfl
  · rcases c.onData_cases f with ⟨_, he⟩ | ⟨_, ⟨_, he⟩ | ⟨_, _, he⟩ | ⟨exc, he⟩⟩ <;> rw [he]
    · exact maxConcurrent_settleData _ f
    · exact maxConcurrent_settleData _ f
    · rfl
  · unfold Conn.onSettings
    cases f.has F_ACK
    · simp only [Bool.false_eq_true, ↓reduceIte]
      split <;> rfl
    · rfl
  · unfold Conn.onPing
    split <;> rfl
  · exact maxConcurrent_failItems _ _ _ _
  · unfold Conn.onRst
    split <;> rfl

-- The limit changes with a frame only.
def limitUnder (c : Conn ε δ) : Event → Nat
  | .frame f => limitAfter c f
  | _ => c.maxConcurrent

theorem maxConcurrent_quiet {hp : Hpack ε δ} {c c' : Conn ε δ} {e : Event} (hq : quiet e)
    (hs : H2.step hp c e = some c') :
    c'.maxConcurrent = limitUnder c e := by
  have hexit : ∀ (c : Conn ε δ) exc, (c.exitReader exc).maxConcurrent = c.maxConcurrent :=
    fun c exc => maxConcurrent_failItems _ _ _ _
  cases H2.step_happens hs with
  | frame f => exact maxConcurrent_dispatch hp c f
  | raised f exc => exact (hexit _ exc).trans (maxConcurrent_dispatch hp c f)
  | eof | stopped => exact hexit _ _
  | rst sid => exact maxConcurrent_sendRst c sid
  | close => rcases c.close_cases with ⟨_, he⟩ | ⟨_, he⟩ | ⟨_, he⟩ <;> rw [he] <;> rfl
  | idle | pop => rfl
  | acquire | refused | send => cases hq

-- Streams only leave the table, and no id is taken.
theorem streams_quiet {hp : Hpack ε δ} {c c' : Conn ε δ} {e : Event} (hq : quiet e)
    (hs : H2.step hp c e = some c') : c'.streams.Sublist c.streams ∧ c'.nextId = c.nextId := by
  cases H2.step_happens hs with
  | frame f =>
      have hk := Conn.kept_dispatch hp c f
      exact ⟨hk.streams ▸ List.Sublist.refl _, hk.nextId⟩
  | raised f exc =>
      have hk := (Conn.kept_dispatch hp c f).toStable.trans (Conn.stable_exitReader _ exc)
      exact ⟨hk.streams ▸ List.Sublist.refl _, hk.nextId⟩
  | eof | stopped =>
      have hk := Conn.stable_exitReader c Conn.peerClosed
      exact ⟨hk.streams ▸ List.Sublist.refl _, hk.nextId⟩
  | rst sid =>
      have hk := Conn.kept_sendRst c sid
      exact ⟨hk.streams ▸ List.Sublist.refl _, hk.nextId⟩
  | close =>
      have hk := Conn.stable_close c
      exact ⟨hk.streams ▸ List.Sublist.refl _, hk.nextId⟩
  | pop sid => exact ⟨List.erase_sublist, rfl⟩
  | idle => exact ⟨List.Sublist.refl _, rfl⟩
  | acquire | refused | send => cases hq

theorem length_register (c : Conn ε δ) (sid maxBytes : Nat) :
    (c.register sid maxBytes).streams.length ≤ c.streams.length + 1 := by
  unfold Conn.register
  dsimp only
  split <;> simp

-- A send opens at most one stream, on the next id.
theorem streams_send (hp : Hpack ε δ) (c : Conn ε δ) (args : SendArgs) :
    (c.send hp args).1.streams.length ≤ c.streams.length + 1 ∧
    ((c.send hp args).1.nextId = c.nextId ∧ (c.send hp args).1.streams = c.streams ∨
      (c.send hp args).1.nextId = c.nextId + 2 ∧
        ∀ sid ∈ (c.send hp args).1.streams, sid ∈ c.streams ∨ sid = c.nextId) := by
  rcases c.send_cases hp args with ⟨hn, _, hs, _⟩ | ⟨_, hn, _, hs, _⟩
  · exact ⟨by rw [hs]; omega, .inl ⟨hn, hs⟩⟩
  · refine ⟨hs ▸ length_register c _ _, .inr ⟨hn, fun sid hm => ?_⟩⟩
    rw [hs] at hm
    exact (Conn.mem_register c _ _ sid).mp hm

namespace Fits

variable {s s' : State ε δ} {i n m : Nat}

-- Nothing is opened, and no limit is passed.
theorem keep (h : Fits s i n) (hcount : holders s' i = m) (hle : m ≤ n)
    (hstreams : (s'.conns i).streams.Sublist (s.conns i).streams)
    (hnext : (s'.conns i).nextId = (s.conns i).nextId)
    (hlimit : (s.conns i).maxConcurrent ≤ (s'.conns i).maxConcurrent ∨
      (s'.conns i).streams.length + m = 0) : Fits s' i m := by
  have hlen := hstreams.length_le
  have hold := h.limit
  have hids := h.ids
  refine ⟨hcount, ?_, ?_, hnext ▸ h.odd, ?_⟩
  · omega
  · omega
  · intro sid hsid
    rw [hnext]
    exact h.below sid (hstreams.subset hsid)

-- A step of the connection alone, under the peer's limit.
theorem event (h : Fits s i n) (hcount : holders s' i = n) {hp : Hpack ε δ} {e : Event} (hq : quiet e)
    (hs : H2.step hp (s.conns i) e = some (s'.conns i))
    (hlimit : (s.conns i).maxConcurrent ≤ limitUnder (s.conns i) e ∨ (s.conns i).streams = [] ∧ n = 0) :
    Fits s' i n := by
  obtain ⟨hstreams, hnext⟩ := streams_quiet hq hs
  refine h.keep hcount (Nat.le_refl n) hstreams hnext ?_
  rw [maxConcurrent_quiet hq hs]
  refine hlimit.imp id ?_
  rintro ⟨hnone, hzero⟩
  rw [hnone] at hstreams
  rw [List.sublist_nil.mp hstreams, hzero]
  rfl

theorem acquire (h : Fits s i n) (hcount : holders s' i = holders s i + 1) (hroom : Room s i)
    (hconn : s'.conns i = (s.conns i).acquire) : Fits s' i (n + 1) := by
  obtain ⟨k, hk, hlimit, hids⟩ := hroom
  obtain rfl : k = n := by
    have heq := hk.symm.trans h.count
    exact_mod_cast heq
  obtain ⟨hstreams, hmax, hnext⟩ : (s'.conns i).streams = (s.conns i).streams ∧
      (s'.conns i).maxConcurrent = (s.conns i).maxConcurrent ∧
      (s'.conns i).nextId = (s.conns i).nextId := by
    rw [hconn]
    unfold Conn.acquire
    split <;> exact ⟨rfl, rfl, rfl⟩
  have hodd := h.odd
  rw [hk] at hcount
  refine ⟨by exact_mod_cast hcount, ?_, ?_, hnext ▸ hodd, ?_⟩
  · rw [hstreams, hmax]
    omega
  · rw [hnext]
    omega
  · rw [hstreams, hnext]
    exact h.below

theorem send (h : Fits s i n) {m : Nat} (hm : holders s' i = m) (hmn : m + 1 = n) {hp : Hpack ε δ}
    {args : SendArgs} (hconn : s'.conns i = ((s.conns i).send hp args).1) : Fits s' i m := by
  obtain ⟨hlen, hids⟩ := streams_send hp (s.conns i) args
  have hmax := (Conn.sendKept_send hp (s.conns i) args).maxConcurrent
  have hlimit := h.limit
  have hroom := h.ids
  have hodd := h.odd
  refine ⟨hm, ?_, ?_, ?_, ?_⟩ <;> rw [hconn]
  · rw [hmax]
    omega
  · rcases hids with ⟨hn, _⟩ | ⟨hn, _⟩ <;> omega
  · rcases hids with ⟨hn, _⟩ | ⟨hn, _⟩ <;> omega
  · intro sid hsid
    rcases hids with ⟨hn, hs⟩ | ⟨hn, hs⟩
    · rw [hn]
      exact h.below sid (hs ▸ hsid)
    · rcases hs sid hsid with hin | rfl
      · have hb := h.below sid hin
        omega
      · omega

end Fits

-- One connection changes, and its own callers only.
theorem Fitting.update {s s' : State ε δ} (h : Fitting s) {i : Nat} {c : Conn ε δ}
    (hc : s'.conns = Function.update s.conns i c) (hcount : ∀ j, j ≠ i → holders s' j = holders s j)
    (hi : ∃ n, Fits s' i n) : Fitting s' := by
  intro j
  by_cases hj : j = i
  · subst hj
    exact hi
  · obtain ⟨n, hfits⟩ := h j
    have hself : s'.conns j = s.conns j := by rw [hc, Function.update_of_ne hj]
    exact ⟨n, hfits.keep ((hcount j hj).trans hfits.count) (Nat.le_refl n) (by rw [hself]) (by rw [hself])
      (.inl (by rw [hself]))⟩

-- A step that finds room where it hands out a connection keeps the limits.
theorem Fitting.step {hp : Hpack ε δ} {s s' : State ε δ} {a : Act} (hknown : Known s) (h : Fitting s)
    (hkeeps : keepsLimit s a) (hadmits : admits s a) (hstep : s.step hp a = some s') : Fitting s' := by
  obtain ⟨t, hcaller, hhands⟩ := step_hands hknown hstep
  cases hhands with
  | still hsame hc _ =>
      intro j
      obtain ⟨n, hfits⟩ := h j
      refine ⟨n, hfits.keep ?_ (Nat.le_refl n) ?_ ?_ (.inl ?_)⟩ <;> try rw [hc]
      exact (holders_stay hcaller hsame j).trans hfits.count
  | event i e c hq hsame hs hc hf _ =>
      refine h.update hc (fun j _ => holders_stay hcaller hsame j) ?_
      obtain ⟨n, hfits⟩ := h i
      have hconn : s'.conns i = c := by rw [hc, Function.update_self]
      refine ⟨n, hfits.event ((holders_stay hcaller hsame i).trans hfits.count) hq (hconn ▸ hs) ?_⟩
      cases e with
      | frame f =>
          obtain rfl := hf f rfl
          refine hkeeps.imp id fun ⟨hnone, hidle⟩ => ⟨hnone, ?_⟩
          have hzero : holders s i = 0 := tally_none hidle
          rw [hfits.count] at hzero
          exact_mod_cast hzero
      | _ => exact .inl (Nat.le_refl _)
  | made fate hsame hc _ =>
      refine h.update hc (fun j _ => holders_stay hcaller hsame j) ?_
      have hconn : s'.conns s.made = .init hp fate := by rw [hc, Function.update_self]
      refine ⟨0, (holders_stay hcaller hsame _).trans (holders_unmade hknown), ?_, ?_, ?_, ?_⟩ <;>
        rw [hconn] <;> simp [Conn.init]
  | take i hold hnew hc _ hby =>
      have hcount := holders_enter hcaller hold hnew
      refine h.update hc (fun j hj => (hcount j).trans (if_neg hj)) ?_
      obtain ⟨n, hfits⟩ := h i
      exact ⟨n + 1, hfits.acquire ((hcount i).trans (if_pos rfl)) (hadmits i hby)
        (by rw [hc, Function.update_self])⟩
  | put i args hold hnew hc _ =>
      refine h.update hc (fun j hj => ?_) ?_
      · have hother := holders_leave hcaller hold hnew j
        rwa [if_neg hj] at hother
      obtain ⟨n, hfits⟩ := h i
      have hi := holders_leave hcaller hold hnew i
      rw [if_pos rfl, hfits.count] at hi
      obtain ⟨m, hm, hmn⟩ := eq_of_add_one hi
      exact ⟨m, hfits.send hm hmn (by rw [hc, Function.update_self])⟩
  | drop i hold hnew hc _ =>
      intro j
      obtain ⟨n, hfits⟩ := h j
      have hcount := holders_leave hcaller hold hnew j
      have hself : s'.conns j = s.conns j := by rw [hc]
      obtain ⟨m, hm, hle⟩ : ∃ m : ℕ, holders s' j = m ∧ m ≤ n := by
        by_cases hj : j = i
        · rw [if_pos hj, hfits.count] at hcount
          obtain ⟨m, hm, hmn⟩ := eq_of_add_one hcount
          exact ⟨m, hm, by omega⟩
        · rw [if_neg hj] at hcount
          exact ⟨n, hcount.trans hfits.count, Nat.le_refl n⟩
      exact ⟨m, hfits.keep hm hle (by rw [hself]) (by rw [hself]) (.inl (by rw [hself]))⟩

theorem Fitting.start (hp : Hpack ε δ) (maxConns : Nat) : Fitting (State.start hp maxConns) := by
  refine fun i => ⟨0, tally_none fun t => ?_, ?_, ?_, rfl, ?_⟩ <;>
    simp [State.start, Conn.init, Caller.obtained]

-- With room for every caller that comes by a connection, and a peer that does
-- not lower its limit meanwhile, both limits hold in every state reached.
theorem admission_within_limits (hp : Hpack ε δ) (maxConns : Nat) (acts : List Act) (s : State ε δ)
    (hkeeps : Transition.Meets (State.step hp) keepsLimit (.start hp maxConns) acts)
    (hadmits : Transition.Meets (State.step hp) admits (.start hp maxConns) acts)
    (hrun : Transition.run (State.step hp) (.start hp maxConns) acts = some s) (i : Nat) :
    (s.conns i).streams.length ≤ (s.conns i).maxConcurrent ∧
      (∀ sid ∈ (s.conns i).streams, sid ≤ 2 ^ 31 - 1) ∧
      ∀ sid, sid % 2 = 1 → sid < (s.conns i).nextId → sid ≤ 2 ^ 31 - 1 := by
  have hinv : Known s ∧ Fitting s := by
    refine Transition.invariant (fun s => Known s ∧ Fitting s) ?_
      ⟨Known.start hp maxConns, Fitting.start hp maxConns⟩ (hkeeps.and hadmits) hrun
    intro s a next ⟨hknown, hfitting⟩ ⟨hk, ha⟩ hs
    exact ⟨hknown.step hs, hfitting.step hknown hk ha hs⟩
  obtain ⟨n, hfits⟩ := hinv.2 i
  have hlimit := hfits.limit
  have hids := hfits.ids
  refine ⟨by omega, ?_, ?_⟩
  · intro sid hsid
    have hb := hfits.below sid hsid
    omega
  · intro sid hodd hlt
    omega

-- A new connection whose peer allows one stream at a time.
def oneAtATime : List Act :=
  [.getConn 0 originKey, .closeNext 0, .scan 0, .connect 0 (.h2 fun _ => none), .frame 0 (streamLimit 1),
    .acquire 0, .insert 0, .leave 0]

theorem admission_within_limits_one :
    ∃ s, Transition.run (State.step recorder) (.start recorder 6)
        (oneAtATime ++ [.send 0 getRequest]) = some s ∧
      (s.conns 0).streams = [1] ∧ (s.conns 0).maxConcurrent = 1 ∧
      (s.conns 0).streams.length ≤ (s.conns 0).maxConcurrent := by
  refine ⟨_, rfl, by decide, by decide, ?_⟩
  refine (admission_within_limits recorder 6 (oneAtATime ++ [.send 0 getRequest]) _ ?_ ?_ rfl 0).1
  · refine ⟨trivial, trivial, trivial, trivial, .inr ⟨rfl, fun t => ?_⟩, trivial, trivial, trivial,
      trivial, trivial⟩
    cases t with
    | zero => decide
    | succ n =>
        change ¬(none : Option Nat) = some 0
        simp
  · refine ⟨by rintro i ⟨⟩, by rintro i ⟨⟩, ?_, by rintro i ⟨⟩, by rintro i ⟨⟩, ?_, by rintro i ⟨⟩,
      by rintro i ⟨⟩, by rintro i ⟨⟩, trivial⟩
    · rintro i (_ | ⟨_, hi⟩)
      exact absurd (candidate_pooled hi) (List.not_mem_nil)
    · rintro i (_ | _ | hc)
      obtain ⟨_, rfl⟩ := Caller.fresh.inj hc
      refine ⟨0, tally_none fun t => ?_, by decide, by decide⟩
      cases t with
      | zero => decide
      | succ n =>
          change ¬(none : Option Nat) = some 0
          simp

-- Two callers come by it before either has opened its stream.
theorem admission_overbooks :
    Transition.Meets (State.step recorder) keepsLimit (.start recorder 6)
        (oneAtATime ++ [.existingConn 1 originKey, .closeNext 1, .send 0 getRequest, .send 1 getRequest]) ∧
      ∃ s, Transition.run (State.step recorder) (.start recorder 6)
          (oneAtATime ++
            [.existingConn 1 originKey, .closeNext 1, .send 0 getRequest, .send 1 getRequest]) = some s ∧
        (s.conns 0).streams = [1, 3] ∧ (s.conns 0).maxConcurrent = 1 := by
  constructor
  · refine ⟨trivial, trivial, trivial, trivial, .inr ⟨rfl, fun t => ?_⟩, trivial, trivial, trivial,
      trivial, trivial, trivial, trivial, trivial⟩
    cases t with
    | zero => decide
    | succ n =>
        change ¬(none : Option Nat) = some 0
        simp
  · exact ⟨_, rfl, by decide, by decide⟩

end NeverFox.Pool
