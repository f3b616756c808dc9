import NeverFox.Pool.State

namespace NeverFox.Pool

open NeverFox.H2 NeverFox.Client

variable {ε δ : Type}

namespace State

variable {hp : Hpack ε δ} {s s' : State ε δ}

@[simp] theorem setCaller_caller (s : State ε δ) (t : Nat) (caller : Caller) :
    (s.setCaller t caller).caller = Function.update s.caller t caller := rfl

@[simp] theorem setCaller_conns (s : State ε δ) (t : Nat) (caller : Caller) :
    (s.setCaller t caller).conns = s.conns := rfl

@[simp] theorem setConn_conns (s : State ε δ) (i : Nat) (c : Conn ε δ) :
    (s.setConn i c).conns = Function.update s.conns i c := rfl

theorem setPooled_pooled (s : State ε δ) (key other : Key) (conns : List Nat) :
    (s.setPooled key conns).pooled other = if other = key then conns else s.pooled other :=
  Dict.getD_set s.pool key other conns []

theorem insert_pooled (s : State ε δ) (t i : Nat) (key other : Key) :
    (s.insert t key i).pooled other = if other = key then s.pooled key ++ [i] else s.pooled other :=
  setPooled_pooled s key other _

-- What an insertion leaves under a key was there, or is what was inserted.
theorem mem_insert_pooled {s : State ε δ} {t i j : Nat} {key other : Key}
    (h : j ∈ (s.insert t key i).pooled other) : j ∈ s.pooled other ∨ other = key ∧ j = i := by
  rw [insert_pooled] at h
  by_cases ho : other = key
  · subst ho
    rw [if_pos rfl, List.mem_append] at h
    exact h.imp_right fun hj => ⟨rfl, List.mem_singleton.mp hj⟩
  · rw [if_neg ho] at h
    exact .inl h

-- A section that picks leaves the callers alone, but for the one it is in.
theorem setCaller_update {s picked : State ε δ} (h : picked.caller = s.caller) (t : Nat) (caller : Caller) :
    (picked.setCaller t caller).caller = Function.update s.caller t caller := by
  rw [setCaller_caller, h]

theorem evictClosed_pooled (s : State ε δ) (key other : Key) :
    (s.evictClosed key).pooled other =
      if other = key then (s.pooled key).filter fun i => !(s.conns i).closed else s.pooled other :=
  setPooled_pooled s key other _

theorem available_mem {key : Key} {i : Nat} (h : s.available key = some i) : i ∈ s.pooled key := by
  have hm := List.mem_of_find?_eq_some h
  exact (List.perm_insertionSort _ _).mem_iff.mp hm

end State

-- What a locked section that picks a connection does to the pool: it evicts
-- closed connections, and acquires at most one of the others.
structure Picks (s s' : State ε δ) : Prop where
  maxConns : s'.maxConns = s.maxConns
  made : s'.made = s.made
  conns : ∀ i, s'.conns i = s.conns i ∨ s'.conns i = (s.conns i).acquire
  pooled : ∀ key, (s'.pooled key).Sublist (s.pooled key)
  draining : ∀ i ∈ s'.draining, i ∈ s.draining ∨ (∃ key, i ∈ s.pooled key) ∧ (s.conns i).closed
  received : s'.received = s.received
  returned : s'.returned = s.returned

namespace Picks

variable {s s' : State ε δ}

theorem evictClosed (s : State ε δ) (key : Key) : Picks s (s.evictClosed key) := by
  refine ⟨rfl, rfl, fun _ => .inl rfl, ?_, ?_, rfl, rfl⟩
  · intro other
    rw [State.evictClosed_pooled]
    split
    · rename_i ho
      exact ho ▸ List.filter_sublist
    · exact List.Sublist.refl _
  · intro i hi
    rcases List.mem_append.mp hi with hi | hi
    · exact .inl hi
    · obtain ⟨hm, hc⟩ := List.mem_filter.mp hi
      exact .inr ⟨⟨key, hm⟩, hc⟩

theorem setCaller (h : Picks s s') (t : Nat) (caller : Caller) : Picks s (s'.setCaller t caller) :=
  ⟨h.maxConns, h.made, h.conns, h.pooled, h.draining, h.received, h.returned⟩

theorem acquire (h : Picks s s') (hc : s'.conns = s.conns) (i : Nat) : Picks s (s'.acquire i) := by
  refine ⟨h.maxConns, h.made, ?_, h.pooled, h.draining, h.received, h.returned⟩
  intro j
  unfold State.acquire
  rw [State.setConn_conns, hc]
  by_cases hj : j = i
  · subst hj
    simp
  · simp [hj]

theorem sweep (s : State ε δ) : Picks s s.sweep :=
  ⟨rfl, rfl, fun _ => .inl rfl, fun _ => List.Sublist.refl _,
    fun _ hi => .inl (List.mem_of_mem_filter hi), rfl, rfl⟩

theorem sweep_evict (s : State ε δ) (key : Key) : Picks s (s.sweep.evictClosed key) := by
  have h := evictClosed s.sweep key
  refine ⟨rfl, rfl, fun _ => .inl rfl, h.pooled, ?_, rfl, rfl⟩
  intro i hi
  exact (h.draining i hi).imp_left List.mem_of_mem_filter

end Picks

-- Where the section of `_existing_conn` leaves the caller.
theorem existingConn_picks (s : State ε δ) (t : Nat) (key : Key) :
    ∃ picked conn, Picks s picked ∧ picked.creating = s.creating ∧ picked.caller = s.caller ∧
      s.existingConn t key = picked.setCaller t (.closing s.dead (.hand conn)) ∧
      ∀ i, conn = some i → i ∈ s.pooled key := by
  unfold State.existingConn
  split
  · exact ⟨_, none, .sweep s, rfl, rfl, rfl, nofun⟩
  · dsimp only
    split
    · exact ⟨_, none, .sweep_evict s key, rfl, rfl, rfl, nofun⟩
    · rename_i i hi
      refine ⟨_, some i, (Picks.sweep_evict s key).acquire rfl i, rfl, rfl, rfl, ?_⟩
      rintro _ ⟨⟩
      exact ((Picks.sweep_evict s key).pooled key).subset (State.available_mem hi)

-- And a round of `_get_conn`: with a connection, waiting, or as the connector.
theorem scan_picks (s : State ε δ) (t : Nat) (key : Key) :
    ∃ picked, Picks s picked ∧ picked.caller = s.caller ∧
      ((∃ i, i ∈ s.pooled key ∧ picked.creating = s.creating ∧
          s.scan t key = picked.setCaller t (.holding i)) ∨
        (picked.creating = s.creating ∧ s.scan t key = picked.setCaller t (.waiting key)) ∨
        (key ∉ s.creating ∧ picked.creating = key :: s.creating ∧
          s.scan t key = picked.setCaller t (.connecting key))) := by
  have hevict := Picks.evictClosed s key
  unfold State.scan
  dsimp only
  split
  · rename_i i hi
    refine ⟨_, hevict.acquire rfl i, rfl, .inl ⟨i, ?_, rfl, rfl⟩⟩
    exact (hevict.pooled key).subset (State.available_mem hi)
  · split
    · exact ⟨_, hevict, rfl, .inr (.inl ⟨rfl, rfl⟩)⟩
    · rename_i hnew
      refine ⟨{ s.evictClosed key with creating := key :: s.creating }, ?_, rfl,
        .inr (.inr ⟨hnew, rfl, rfl⟩)⟩
      exact ⟨hevict.maxConns, hevict.made, hevict.conns, hevict.pooled, hevict.draining, hevict.received,
        hevict.returned⟩

-- A send leaves its caller idle, or waiting on the stream it was given.
theorem send_eq (hp : Hpack ε δ) (s : State ε δ) (t i : Nat) (args : SendArgs) :
    ∃ caller, s.send hp t i args =
        (s.setConn i ((s.conns i).send hp args).1).setCaller t caller ∧
      (caller = .idle ∨ ∃ sid, caller = .pending i sid ∧ ((s.conns i).send hp args).2 = .ok sid) := by
  unfold State.send
  rcases (s.conns i).send hp args with ⟨c, result⟩
  cases result with
  | error exc => exact ⟨.idle, rfl, .inl rfl⟩
  | ok sid => exact ⟨.pending i sid, rfl, .inr ⟨sid, rfl, rfl⟩⟩

-- Everything a step can be, with where its caller stood.
inductive Happens (hp : Hpack ε δ) (s : State ε δ) : Act → State ε δ → Prop
  | existingConn {t : Nat} (key : Key) (hc : s.caller t = .idle) :
      Happens hp s (.existingConn t key) (s.existingConn t key)
  | getConn {t : Nat} (key : Key) (hc : s.caller t = .idle) :
      Happens hp s (.getConn t key) (s.reap t (.scan key))
  | close {t : Nat} (hc : s.caller t = .idle) : Happens hp s (.close t) (s.reap t .clear)
  | closeOne {t i : Nat} {todo : List Nat} {next : Next} (hc : s.caller t = .closing (i :: todo) next) :
      Happens hp s (.closeNext t) ((s.setConn i (s.conns i).close).setCaller t (.closing todo next))
  | proceed {t : Nat} {next : Next} (hc : s.caller t = .closing [] next) :
      Happens hp s (.closeNext t) (s.proceed t next)
  | clear {t : Nat} (hc : s.caller t = .clearing) :
      Happens hp s (.clear t)
        ({ s with pool := .empty }.setCaller t (.closing s.pool.values.flatten (.hand none)))
  | scan {t : Nat} {key : Key} (hc : s.caller t = .scanning key) : Happens hp s (.scan t) (s.scan t key)
  | wake {t : Nat} {key : Key} (hc : s.caller t = .waiting key) :
      Happens hp s (.wake t) (s.setCaller t (.scanning key))
  | connect {t : Nat} {key : Key} (outcome : Connect) (hc : s.caller t = .connecting key) :
      Happens hp s (.connect t outcome) (s.connect hp t key outcome)
  | acquire {t i : Nat} {key : Key} (hc : s.caller t = .fresh key i) :
      Happens hp s (.acquire t) ((s.acquire i).setCaller t (.acquired key i))
  | insert {t i : Nat} {key : Key} (hc : s.caller t = .acquired key i) :
      Happens hp s (.insert t) (s.insert t key i)
  | leave {t : Nat} {key : Key} {conn : Option Nat} (hc : s.caller t = .leaving key conn) :
      Happens hp s (.leave t) ({ s with creating := s.creating.erase key }.hand t conn)
  | send {t i : Nat} (args : SendArgs) (hc : s.caller t = .holding i) :
      Happens hp s (.send t args) (s.send hp t i args)
  | abandon {t i : Nat} (hc : s.caller t = .holding i) :
      Happens hp s (.abandon t) (s.setCaller t .idle)
  | done {t i sid : Nat} (hc : s.caller t = .pending i sid) (hd : ((s.conns i).obj sid).done = true) :
      Happens hp s (.done t) (s.setCaller t (.woken i sid))
  | expire {t i sid : Nat} (hc : s.caller t = .pending i sid) :
      Happens hp s (.expire t) ((s.setConn i ((s.conns i).sendRst sid)).setCaller t (.expired i sid))
  | finish {t i sid : Nat} (hc : s.caller t = .woken i sid) : Happens hp s (.pop t) (s.finish t i sid)
  | drop {t i sid : Nat} (hc : s.caller t = .expired i sid) :
      Happens hp s (.pop t) ((s.setConn i ((s.conns i).pop sid)).setCaller t .idle)
  | frame {i : Nat} {f : Frame} {c : Conn ε δ} (hi : i < s.made)
      (hs : H2.step hp (s.conns i) (.frame f) = some c) :
      Happens hp s (.frame i f) { s.setConn i c with
        received := Function.update s.received i (s.received i ++ [f]) }
  | eof {i : Nat} {c : Conn ε δ} (hi : i < s.made) (hs : H2.step hp (s.conns i) .eof = some c) :
      Happens hp s (.eof i) (s.setConn i c)
  | readTimeout {i : Nat} {c : Conn ε δ} (hi : i < s.made)
      (hs : H2.step hp (s.conns i) .readTimeout = some c) : Happens hp s (.readTimeout i) (s.setConn i c)

theorem event_some {hp : Hpack ε δ} {s s' : State ε δ} {i : Nat} {e : Event}
    (h : s.event hp i e = some s') :
    i < s.made ∧ ∃ c, H2.step hp (s.conns i) e = some c ∧ s' = s.setConn i c := by
  unfold State.event at h
  split at h
  · rename_i hi
    obtain ⟨c, hc, rfl⟩ := Option.map_eq_some_iff.mp h
    exact ⟨hi, c, hc, rfl⟩
  · cases h

theorem step_happens {hp : Hpack ε δ} {s s' : State ε δ} {a : Act} (h : s.step hp a = some s') :
    Happens hp s a s' := by
  cases a with
  -- One state of the caller enables each of these, and they do one thing in it.
  | existingConn | getConn | close | clear | scan | wake | connect | acquire | insert | leave | send
  | abandon | expire =>
      simp only [State.step] at h
      split at h
      · rename_i hc
        obtain rfl := Option.some.inj h
        constructor
        exact hc
      · cases h
  | closeNext t =>
      simp only [State.step] at h
      split at h
      · rename_i hc
        obtain rfl := Option.some.inj h
        exact .closeOne hc
      · rename_i hc
        obtain rfl := Option.some.inj h
        exact .proceed hc
      · cases h
  | done t =>
      simp only [State.step] at h
      split at h
      · rename_i hc
        obtain ⟨hd, he⟩ := Option.ite_none_right_eq_some.mp h
        obtain rfl := Option.some.inj he
        exact .done hc hd
      · cases h
  | pop t =>
      simp only [State.step] at h
      split at h
      · rename_i hc
        obtain rfl := Option.some.inj h
        exact .finish hc
      · rename_i hc
        obtain rfl := Option.some.inj h
        exact .drop hc
      · cases h
  | frame i f =>
      obtain ⟨s₁, he, rfl⟩ := Option.map_eq_some_iff.mp h
      obtain ⟨hi, c, hs, rfl⟩ := event_some he
      exact .frame hi hs
  | eof i =>
      obtain ⟨hi, c, hs, rfl⟩ := event_some h
      exact .eof hi hs
  | readTimeout i =>
      obtain ⟨hi, c, hs, rfl⟩ := event_some h
      exact .readTimeout hi hs

end NeverFox.Pool
