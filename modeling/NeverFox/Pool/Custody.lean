import NeverFox.Pool.Conservation
import NeverFox.Pool.Refs
import NeverFox.Pool.SingleFlight

namespace NeverFox.Pool

open NeverFox.H2 NeverFox.Client Placement

variable {ε δ : Type}

-- What a caller has of the transport that its call of `_get_conn` opened: the
-- local variable, in front of the ALPN query or of the constructor; what an
-- HTTP/1.1 call returned; or nothing any more, the connection it made having it.
inductive Hand
  | none
  | opened (n : Nat)
  | negotiated (n : Nat)
  | result (n : Nat)
  | made (n : Nat)

def Hand.transport : Hand → Option Nat
  | .opened n | .negotiated n | .result n => some n
  | _ => .none

def Hand.built : Hand → Option Nat
  | .made n => some n
  | _ => .none

-- The session with its transports, numbered as they were opened. `shut` has
-- those that an HTTP/1.1 call closed, and `wrapped` those of the connections, in
-- their order. `executor` marks a caller whose call a task awaits, `owns` one
-- whose acquire() returned true, and `stray` lists the references of callers
-- that have vanished, each with the transport that its call had opened.
structure Custody (ε δ : Type) where
  pool : State ε δ
  book : Book := {}
  opened : Nat := 0
  shut : List Nat := []
  wrapped : List Nat := []
  hand : Nat → Hand := fun _ => .none
  executor : Nat → Bool := fun _ => false
  owns : Nat → Bool := fun _ => false
  stray : List (Nat × Option Nat) := []

-- `submit` is `_get_conn` in the executor. `refuse` and `opening` are the two
-- ends of Transport(), `alpn` has no reply where decode() raises, and
-- `construct` is H2Connection(tp): its first write, and the start of its reader.
inductive Handover
  | session (a : Act)
  | submit (t : Nat) (key : Key)
  | refuse (t : Nat)
  | opening (t : Nat)
  | alpn (t : Nat) (reply : Option String)
  | construct (t : Nat) (fate : Nat → Option Nat) (starts : Bool)
  | exchanged (t : Nat)
  | vanish (t : Nat)

-- The caller whose next call an action begins.
def Act.begins : Act → Option Nat
  | .existingConn t _ | .getConn t _ | .close t => some t
  | _ => none

-- What Handover does in its own steps.
def Act.handsOver : Act → Bool
  | .connect _ _ | .abandon _ => true
  | _ => false

-- Who holds a reference, behind an action of the session.
def ownsAfter (s s' : State ε δ) (owns : Nat → Bool) : Act → Nat → Bool
  | .existingConn t _ | .scan t => Function.update owns t (s'.caller t).obtained.isSome
  | .acquire t => Function.update owns t <| match s.caller t with
      | .fresh _ i => (s.conns i).acquirable
      | _ => false
  | .send t _ => Function.update owns t false
  | _ => owns

namespace Custody

def start (hp : Hpack ε δ) (maxConns : Nat) : Custody ε δ := { pool := .start hp maxConns }

def setHand (s : Custody ε δ) (t : Nat) (hand : Hand) : Custody ε δ :=
  { s with hand := Function.update s.hand t hand }

def advance (hp : Hpack ε δ) (s : Custody ε δ) (a : Act) : Option (Custody ε δ) :=
  (s.pool.step hp a).map fun pool =>
    { s with pool := pool, book := s.book.note s.pool a pool, owns := ownsAfter s.pool pool s.owns a }

-- A call begins with nothing in hand.
def enter (s : Custody ε δ) (t : Nat) (executor : Bool) : Custody ε δ :=
  { s.setHand t .none with executor := Function.update s.executor t executor }

def step (hp : Hpack ε δ) (s : Custody ε δ) : Handover → Option (Custody ε δ)
  | .session a =>
      if a.handsOver then none
      else match a.begins with
        | none => s.advance hp a
        | some t =>
            if (s.hand t).transport = none then (s.advance hp a).map (·.enter t false) else none
  | .submit t key =>
      if (s.hand t).transport = none then (s.advance hp (.getConn t key)).map (·.enter t true) else none
  | .refuse t =>
      match s.hand t with
      | .none => s.advance hp (.connect t .failed)
      | _ => none
  | .opening t =>
      match s.pool.caller t, s.hand t with
      | .connecting _, .none => some { s.setHand t (.opened s.opened) with opened := s.opened + 1 }
      | _, _ => none
  | .alpn t reply =>
      match s.hand t, reply with
      | .opened _, none => (s.advance hp (.connect t .failed)).map (·.setHand t .none)
      | .opened n, some proto =>
          if proto = "h2" then some (s.setHand t (.negotiated n))
          else (s.advance hp (.connect t .http1)).map (·.setHand t (.result n))
      | _, _ => none
  | .construct t fate starts =>
      match s.hand t with
      | .negotiated n =>
          -- Nothing in the constructor closes what it was given.
          if (fate 0).isSome || !starts then
            (s.advance hp (.connect t .failed)).map (·.setHand t .none)
          else (s.advance hp (.connect t (.h2 fate))).map fun s =>
            { s.setHand t (.made n) with wrapped := s.wrapped ++ [n] }
      | _ => none
  | .exchanged t =>
      match s.pool.caller t, s.hand t with
      | .idle, .result n => some { s.setHand t .none with shut := s.shut ++ [n] }
      | _, _ => none
  | .vanish t =>
      if s.executor t then
        match s.pool.caller t, s.hand t with
        | .idle, .result _ => some (s.setHand t .none)
        | .holding i, hand =>
            if hand.transport = none then
              (s.advance hp (.abandon t)).map fun next =>
                { next with stray := next.stray ++ if s.owns t then [(i, hand.built)] else [] }
            else none
        | _, _ => none
      else none

-- Where a transport is kept.
inductive Keeper
  | call (t : Nat)
  | shut
  | wrapped
  deriving DecidableEq

def holds (s : Custody ε δ) : Keeper → List Nat
  | .call t => (s.hand t).transport.toList
  | .shut => s.shut
  | .wrapped => s.wrapped

-- The connection is being made, or the session has it on a list, or it has been
-- closed.
def Cared (s : Custody ε δ) (i : Nat) : Prop :=
  (∃ t, (s.pool.caller t).newborn = some i) ∨ (∃ place, i ∈ s.pool.lists place) ∨ i ∈ s.book.called

end Custody

-- Every transport that was opened is closed, or in the hands of a call that goes
-- on, or that of a connection that the session cares for; and no caller that has
-- vanished owns a reference on the connection that its call made.
structure Tidy (s : Custody ε δ) : Prop where
  kept : ∀ n < s.opened, n ∈ s.shut ∨ (∃ t, (s.hand t).transport = some n) ∨
    ∃ i, s.wrapped[i]? = some n ∧ s.Cared i
  unowned : ∀ entry ∈ s.stray, entry.2 = none

-- A transport is not dropped: ALPN gives an answer, the first write of a
-- connection succeeds and its reader starts, and no caller vanishes with one.
def handsOn (s : Custody ε δ) : Handover → Prop
  | .alpn _ reply => reply.isSome
  | .construct _ fate starts => fate 0 = none ∧ starts = true
  | .vanish t => (s.hand t).transport = none
  | _ => True

-- No caller vanishes with a reference on the connection that its call made.
def letsGo (s : Custody ε δ) : Handover → Prop
  | .vanish t => s.owns t = true → (s.hand t).built = none
  | _ => True

def losesNothing (s : Custody ε δ) (a : Handover) : Prop := handsOn s a ∧ letsGo s a

-- No caller vanishes with any reference.
def returns (s : Custody ε δ) : Handover → Prop
  | .vanish t => ∀ i, s.pool.caller t = .holding i → s.owns t = false
  | _ => True

-- What an action does, once it is enabled.
inductive Handed (hp : Hpack ε δ) (s : Custody ε δ) : Handover → Custody ε δ → Prop
  | session {a : Act} {next : Custody ε δ} (ha : a.handsOver = false) (hs : s.advance hp a = some next) :
      Handed hp s (.session a) next
  | begin {a : Act} {t : Nat} {next : Custody ε δ} (ha : a.handsOver = false)
      (hempty : (s.hand t).transport = none) (hs : s.advance hp a = some next) :
      Handed hp s (.session a) (next.enter t false)
  | submit {t : Nat} {key : Key} {next : Custody ε δ} (hempty : (s.hand t).transport = none)
      (hs : s.advance hp (.getConn t key) = some next) : Handed hp s (.submit t key) (next.enter t true)
  | refuse {t : Nat} {next : Custody ε δ} (hs : s.advance hp (.connect t .failed) = some next) :
      Handed hp s (.refuse t) next
  | opening {t : Nat} (hhand : s.hand t = .none) :
      Handed hp s (.opening t) { s.setHand t (.opened s.opened) with opened := s.opened + 1 }
  | mute {t n : Nat} {next : Custody ε δ} (hhand : s.hand t = .opened n)
      (hs : s.advance hp (.connect t .failed) = some next) :
      Handed hp s (.alpn t none) (next.setHand t .none)
  | h2 {t n : Nat} (hhand : s.hand t = .opened n) :
      Handed hp s (.alpn t (some "h2")) (s.setHand t (.negotiated n))
  | http1 {t n : Nat} {proto : String} {next : Custody ε δ} (hhand : s.hand t = .opened n)
      (hs : s.advance hp (.connect t .http1) = some next) :
      Handed hp s (.alpn t (some proto)) (next.setHand t (.result n))
  | broken {t n : Nat} {fate : Nat → Option Nat} {starts : Bool} {next : Custody ε δ}
      (hhand : s.hand t = .negotiated n) (hbad : ¬(fate 0 = none ∧ starts = true))
      (hs : s.advance hp (.connect t .failed) = some next) :
      Handed hp s (.construct t fate starts) (next.setHand t .none)
  | made {t n : Nat} {fate : Nat → Option Nat} {next : Custody ε δ} (hhand : s.hand t = .negotiated n)
      (hfate : fate 0 = none) (hs : s.advance hp (.connect t (.h2 fate)) = some next) :
      Handed hp s (.construct t fate true)
        { next.setHand t (.made n) with wrapped := next.wrapped ++ [n] }
  | exchanged {t n : Nat} (hhand : s.hand t = .result n) :
      Handed hp s (.exchanged t) { s.setHand t .none with shut := s.shut ++ [n] }
  | lose {t n : Nat} (hcaller : s.pool.caller t = .idle) (hhand : s.hand t = .result n) :
      Handed hp s (.vanish t) (s.setHand t .none)
  | leave {t i : Nat} {next : Custody ε δ} (hcaller : s.pool.caller t = .holding i)
      (hempty : (s.hand t).transport = none) (hs : s.advance hp (.abandon t) = some next) :
      Handed hp s (.vanish t)
        { next with stray := next.stray ++ if s.owns t then [(i, (s.hand t).built)] else [] }

theorem step_handed {hp : Hpack ε δ} {s s' : Custody ε δ} {a : Handover} (h : s.step hp a = some s') :
    Handed hp s a s' := by
  cases a with
  | session a =>
      simp only [Custody.step] at h
      split at h
      · cases h
      · rename_i ha
        have hown : a.handsOver = false := by simpa using ha
        split at h
        · exact .session hown h
        · split at h
          · rename_i hempty
            obtain ⟨next, hs, rfl⟩ := Option.map_eq_some_iff.mp h
            exact .begin hown hempty hs
          · cases h
  | submit t key =>
      simp only [Custody.step] at h
      split at h
      · rename_i hempty
        obtain ⟨next, hs, rfl⟩ := Option.map_eq_some_iff.mp h
        exact .submit hempty hs
      · cases h
  | refuse t =>
      simp only [Custody.step] at h
      split at h
      · exact .refuse h
      · cases h
  | opening t =>
      simp only [Custody.step] at h
      split at h
      · rename_i hhand
        cases h
        exact .opening hhand
      · cases h
  | alpn t reply =>
      simp only [Custody.step] at h
      split at h
      · rename_i hhand
        obtain ⟨next, hs, rfl⟩ := Option.map_eq_some_iff.mp h
        exact .mute hhand hs
      · rename_i hhand
        split at h
        · rename_i hproto
          cases h
          exact hproto ▸ .h2 hhand
        · obtain ⟨next, hs, rfl⟩ := Option.map_eq_some_iff.mp h
          exact .http1 hhand hs
      · cases h
  | construct t fate starts =>
      simp only [Custody.step] at h
      split at h
      · rename_i hhand
        split at h
        · rename_i hbad
          obtain ⟨next, hs, rfl⟩ := Option.map_eq_some_iff.mp h
          refine .broken hhand ?_ hs
          rintro ⟨hfate, hstarts⟩
          simp [hfate, hstarts] at hbad
        · rename_i hgood
          obtain ⟨hfate, rfl⟩ : fate 0 = none ∧ starts = true := by simpa using hgood
          obtain ⟨next, hs, rfl⟩ := Option.map_eq_some_iff.mp h
          exact .made hhand hfate hs
      · cases h
  | exchanged t =>
      simp only [Custody.step] at h
      split at h
      · rename_i hhand
        cases h
        exact .exchanged hhand
      · cases h
  | vanish t =>
      simp only [Custody.step] at h
      split at h
      · split at h
        · rename_i hcaller hhand
          cases h
          exact .lose hcaller hhand
        · rename_i hcaller
          split at h
          · rename_i hempty
            obtain ⟨next, hs, rfl⟩ := Option.map_eq_some_iff.mp h
            exact .leave hcaller hempty hs
          · cases h
        · cases h
      · cases h

-- How many connections an action of the session makes.
def Act.makes : Act → Nat
  | .connect _ (.h2 _) => 1
  | _ => 0

theorem made_makes {hp : Hpack ε δ} {s s' : State ε δ} {a : Act} (hstep : s.step hp a = some s') :
    s'.made = s.made + a.makes := by
  cases a with
  | connect t outcome =>
      cases step_happens hstep with
      | connect _ hc => cases outcome <;> rfl
  | _ =>
      rcases made_step hstep with hmade | ⟨_, _, ha, _⟩
      · exact hmade
      · cases ha

-- A step of a caller that makes no connection leaves those that others make.
theorem newborn_other {s s' : State ε δ} {t : Nat} {caller : Caller}
    (hcaller : s'.caller = Function.update s.caller t caller) (hnone : (s.caller t).newborn = none)
    {u i : Nat} (hi : (s.caller u).newborn = some i) : (s'.caller u).newborn = some i := by
  have hu : u ≠ t := by
    rintro rfl
    rw [hnone] at hi
    cases hi
  rw [hcaller, Function.update_of_ne hu]
  exact hi

-- A new connection stays its caller's until it is inserted.
theorem newborn_stays {hp : Hpack ε δ} {s s' : State ε δ} {a : Act} (hstep : s.step hp a = some s')
    {u i : Nat} (hi : (s.caller u).newborn = some i) :
    (s'.caller u).newborn = some i ∨ i ∈ s.insertedBy a := by
  cases step_happens hstep with
  | @existingConn t key hc =>
      obtain ⟨picked, conn, _, _, hcaller, he, _⟩ := existingConn_picks s t key
      rw [he]
      exact .inl (newborn_other (State.setCaller_update hcaller t _) (by rw [hc]; rfl) hi)
  | @scan t key hc =>
      obtain ⟨picked, _, hcaller, hcase⟩ := scan_picks s t key
      have hupdate := State.setCaller_update hcaller t
      rcases hcase with ⟨_, _, _, he⟩ | ⟨_, he⟩ | ⟨_, _, he⟩ <;> rw [he] <;>
        exact .inl (newborn_other (hupdate _) (by rw [hc]; rfl) hi)
  | @proceed t next hc =>
      rcases next with key | _ | ⟨_ | j⟩ <;> exact .inl (newborn_other rfl (by rw [hc]; rfl) hi)
  | @connect t key outcome hc =>
      cases outcome <;> exact .inl (newborn_other rfl (by rw [hc]; rfl) hi)
  | @leave t key conn hc => cases conn <;> exact .inl (newborn_other rfl (by rw [hc]; rfl) hi)
  | @send t j args hc =>
      obtain ⟨caller, he, _⟩ := send_eq hp s t j args
      rw [he]
      exact .inl (newborn_other (s := s) rfl (by rw [hc]; rfl) hi)
  | @acquire t j key hc =>
      by_cases hu : u = t
      · subst hu
        rw [hc] at hi
        exact .inl (by simpa [Caller.newborn] using hi)
      · exact .inl (by simpa [State.acquire, State.setConn, hu] using hi)
  | @insert t j key hc =>
      by_cases hu : u = t
      · subst hu
        exact .inr (by simp [State.insertedBy, hi])
      · exact .inl (by simpa [State.insert, State.setPooled, hu] using hi)
  | getConn _ hc | close hc | closeOne hc | clear hc | wake hc | abandon hc | done hc _ | expire hc
  | finish hc | drop hc => exact .inl (newborn_other (s := s) rfl (by rw [hc]; rfl) hi)
  | frame _ _ | eof _ _ | readTimeout _ _ => exact .inl hi

section Holds

variable {hp : Hpack ε δ} {s s' : Custody ε δ}

theorem advance_some {a : Act} (h : s.advance hp a = some s') :
    ∃ pool, s.pool.step hp a = some pool ∧ s' =
      { s with pool := pool, book := s.book.note s.pool a pool, owns := ownsAfter s.pool pool s.owns a } := by
  obtain ⟨pool, hs, rfl⟩ := Option.map_eq_some_iff.mp h
  exact ⟨pool, hs, rfl⟩

theorem setHand_holds (s : Custody ε δ) (t : Nat) (hand : Hand) :
    (s.setHand t hand).holds = Function.update s.holds (.call t) hand.transport.toList := by
  funext k
  cases k with
  | call u =>
      by_cases hu : u = t
      · subst hu
        simp [Custody.holds, Custody.setHand]
      · simp [Custody.holds, Custody.setHand, hu]
  | shut | wrapped => rfl

-- A hand that keeps its transport, or that stays empty, is not seen.
theorem setHand_keeps {t : Nat} (hand : Hand) (h : hand.transport = (s.hand t).transport) :
    (s.setHand t hand).holds = s.holds := by
  rw [setHand_holds, h]
  exact Function.update_eq_self _ _

theorem advance_holds {a : Act} (h : s.advance hp a = some s') :
    s'.holds = s.holds ∧ s'.opened = s.opened := by
  obtain ⟨pool, _, rfl⟩ := advance_some h
  exact ⟨funext fun k => by cases k <;> rfl, rfl⟩

end Holds

-- What an action does to the transports: nothing, or one is opened, or changes
-- hands, or is dropped.
inductive Moves (s s' : Custody ε δ) (a : Handover) : Prop
  | keep (hholds : s'.holds = s.holds) (hopened : s'.opened = s.opened) (hok : handsOn s a)
  | opening (t : Nat) (hempty : s.holds (.call t) = [])
      (hholds : s'.holds = Function.update s.holds (.call t) (s.holds (.call t) ++ [s.opened]))
      (hopened : s'.opened = s.opened + 1) (hok : handsOn s a)
  | pass (t : Nat) (k : Custody.Keeper) (hk : Custody.Keeper.call t ≠ k)
      (hholds : s'.holds = Function.update (Function.update s.holds (.call t) []) k
        (s.holds k ++ s.holds (.call t)))
      (hopened : s'.opened = s.opened) (hok : handsOn s a)
  | drop (t n : Nat) (hheld : s.holds (.call t) = [n])
      (hholds : s'.holds = Function.update s.holds (.call t) [])
      (hopened : s'.opened = s.opened) (hbad : ¬handsOn s a)

theorem step_moves {hp : Hpack ε δ} {s s' : Custody ε δ} {a : Handover} (hstep : s.step hp a = some s') :
    Moves s s' a := by
  cases step_handed hstep with
  | session _ hs | refuse hs =>
      obtain ⟨hholds, hopened⟩ := advance_holds hs
      exact .keep hholds hopened trivial
  | @begin a t next _ hempty hs =>
      obtain ⟨hholds, hopened⟩ := advance_holds hs
      obtain ⟨pool, _, rfl⟩ := advance_some hs
      exact .keep ((setHand_keeps .none hempty.symm).trans hholds) hopened trivial
  | @submit t key next hempty hs =>
      obtain ⟨hholds, hopened⟩ := advance_holds hs
      obtain ⟨pool, _, rfl⟩ := advance_some hs
      exact .keep ((setHand_keeps .none hempty.symm).trans hholds) hopened trivial
  | @opening t hhand =>
      have hempty : s.holds (.call t) = [] := by simp [Custody.holds, hhand, Hand.transport]
      refine .opening t hempty ?_ rfl trivial
      rw [hempty]
      exact setHand_holds s t (.opened s.opened)
  | @mute t n next hhand hs =>
      obtain ⟨hholds, hopened⟩ := advance_holds hs
      refine .drop t n (by simp [Custody.holds, hhand, Hand.transport]) ?_ hopened (by simp [handsOn])
      rw [setHand_holds, hholds]
      rfl
  | @h2 t n hhand => exact .keep (setHand_keeps _ (by rw [hhand]; rfl)) rfl rfl
  | @http1 t n proto next hhand hs =>
      obtain ⟨hholds, hopened⟩ := advance_holds hs
      obtain ⟨pool, _, rfl⟩ := advance_some hs
      exact .keep ((setHand_keeps _ (by rw [hhand]; rfl)).trans hholds) hopened rfl
  | @broken t n fate starts next hhand hbad hs =>
      obtain ⟨hholds, hopened⟩ := advance_holds hs
      refine .drop t n (by simp [Custody.holds, hhand, Hand.transport]) ?_ hopened hbad
      rw [setHand_holds, hholds]
      rfl
  | @made t n fate next hhand hfate hs =>
      obtain ⟨pool, _, rfl⟩ := advance_some hs
      refine .pass t .wrapped (by simp) (funext fun k => ?_) rfl ⟨hfate, rfl⟩
      cases k with
      | call u =>
          by_cases hu : u = t
          · subst hu
            simp [Custody.holds, Custody.setHand, Hand.transport]
          · simp [Custody.holds, Custody.setHand, hu]
      | shut => simp [Custody.holds, Custody.setHand]
      | wrapped => simp [Custody.holds, hhand, Hand.transport]
  | @exchanged t n hhand =>
      refine .pass t .shut (by simp) (funext fun k => ?_) rfl trivial
      cases k with
      | call u =>
          by_cases hu : u = t
          · subst hu
            simp [Custody.holds, Custody.setHand, Hand.transport]
          · simp [Custody.holds, Custody.setHand, hu]
      | shut => simp [Custody.holds, hhand, Hand.transport]
      | wrapped => simp [Custody.holds, Custody.setHand]
  | @lose t n hcaller hhand =>
      refine .drop t n (by simp [Custody.holds, hhand, Hand.transport]) (setHand_holds s t .none) rfl ?_
      simp [handsOn, hhand, Hand.transport]
  | @leave t i next hcaller hempty hs =>
      obtain ⟨pool, _, rfl⟩ := advance_some hs
      exact .keep (funext fun k => by cases k <;> rfl) rfl hempty

-- The session itself takes a step of its own, or none.
theorem pool_step {hp : Hpack ε δ} {s s' : Custody ε δ} {a : Handover} (hstep : s.step hp a = some s') :
    (s'.pool = s.pool ∧ s'.book = s.book ∧ s'.wrapped = s.wrapped) ∨
      ∃ b, s.pool.step hp b = some s'.pool ∧ s'.book = s.book.note s.pool b s'.pool ∧
        s'.wrapped.length = s.wrapped.length + b.makes := by
  have hown : ∀ {a : Act}, a.handsOver = false → a.makes = 0 := by
    intro a ha
    cases a with
    | connect => cases ha
    | _ => rfl
  cases step_handed hstep with
  | @session a next ha hs | @begin a _ next ha _ hs =>
      obtain ⟨pool, hpool, rfl⟩ := advance_some hs
      exact .inr ⟨a, hpool, rfl, by rw [hown ha]; rfl⟩
  | submit _ hs | refuse hs | mute _ hs | http1 _ hs | broken _ _ hs | leave _ _ hs =>
      obtain ⟨pool, hpool, rfl⟩ := advance_some hs
      exact .inr ⟨_, hpool, rfl, rfl⟩
  | made _ _ hs =>
      obtain ⟨pool, hpool, rfl⟩ := advance_some hs
      exact .inr ⟨_, hpool, rfl, List.length_append⟩
  | opening _ | h2 _ | exchanged _ | lose _ _ => exact .inl ⟨rfl, rfl, rfl⟩

-- Every connection is being made or has been inserted, its transport is the one
-- at its place, and no transport is in two places.
structure InCustody (s : Custody ε δ) : Prop where
  kept : Kept s.pool s.book
  flight : SingleFlight s.pool
  length : s.wrapped.length = s.pool.made
  attended : ∀ i < s.pool.made, (∃ t, (s.pool.caller t).newborn = some i) ∨ i ∈ s.book.inserted
  placed : Placed s.holds fun n => ∃ k, n ∈ s.holds k
  old : ∀ k, ∀ n ∈ s.holds k, n < s.opened

def Accounted (s : Custody ε δ) : Prop := ∀ n < s.opened, ∃ k, n ∈ s.holds k

namespace InCustody

variable {hp : Hpack ε δ} {s s' : Custody ε δ}

theorem start (hp : Hpack ε δ) (maxConns : Nat) : InCustody (Custody.start hp maxConns) := by
  have hnone : ∀ k, (Custody.start hp maxConns).holds k = [] := fun k => by cases k <;> rfl
  refine ⟨.start hp maxConns, .start hp maxConns, rfl, ?_, .empty hnone ?_, ?_⟩
  · intro i hi
    cases hi
  · rintro n ⟨k, hk⟩
    rw [hnone] at hk
    cases hk
  · intro k n hk
    rw [hnone] at hk
    cases hk

-- A connection that is made belongs to its caller, or was inserted before.
theorem attended_step (h : InCustody s) {b : Act} (hstep : s.pool.step hp b = some s'.pool)
    (hbook : s'.book = s.book.note s.pool b s'.pool) {i : Nat} (hi : i < s'.pool.made) :
    (∃ t, (s'.pool.caller t).newborn = some i) ∨ i ∈ s'.book.inserted := by
  have hold : i < s.pool.made → (∃ t, (s'.pool.caller t).newborn = some i) ∨ i ∈ s'.book.inserted := by
    intro hlt
    rcases h.attended i hlt with ⟨t, ht⟩ | hin
    · rcases newborn_stays hstep ht with ht' | hin
      · exact .inl ⟨t, ht'⟩
      · exact .inr (hbook ▸ List.mem_append_right _ hin)
    · exact .inr (hbook ▸ List.mem_append_left _ hin)
  cases step_births hstep with
  | keep hmade => exact hold (by omega)
  | born t caller hmade hcaller hnew =>
      by_cases hlt : i < s.pool.made
      · exact hold hlt
      · obtain rfl : i = s.pool.made := by omega
        exact .inl ⟨t, by rw [hcaller, Function.update_self, hnew]⟩

-- What the moves come to: which transports are held then, each in one place.
theorem placed_step (h : InCustody s) {a : Handover} (hmoves : Moves s s' a) :
    ∃ live, Placed s'.holds live ∧ (∀ n, live n → n < s'.opened) ∧
      ((∀ n < s'.opened, live n) ↔ Accounted s ∧ handsOn s a) := by
  have hold : ∀ n, (∃ k, n ∈ s.holds k) → n < s.opened := by
    rintro n ⟨k, hk⟩
    exact h.old k n hk
  cases hmoves with
  | keep hholds hopened hok =>
      refine ⟨fun n => ∃ k, n ∈ s.holds k, ?_, hopened ▸ hold, ?_⟩
      · rw [hholds]
        exact h.placed
      · rw [hopened]
        exact (and_iff_left hok).symm
  | opening t hempty hholds hopened hok =>
      have hnew : ¬∃ k, s.opened ∈ s.holds k := fun hk => Nat.lt_irrefl _ (hold _ hk)
      refine ⟨_, hholds ▸ h.placed.put hnew, ?_, ?_⟩
      · rintro n (rfl | hn)
        · omega
        · have hlt := hold n hn
          omega
      · rw [hopened, and_iff_left hok]
        constructor
        · intro hall n hn
          rcases hall n (by omega) with rfl | hk
          · omega
          · exact hk
        · intro hacc n hn
          by_cases hlt : n < s.opened
          · exact .inr (hacc n hlt)
          · exact .inl (by omega)
  | pass t k hk hholds hopened hok =>
      have hmove := h.placed.move (fun _ => true) hk
      rw [List.filter_true, show (s.holds (.call t)).filter (fun _ => !true) = [] by simp, ← hholds] at hmove
      refine ⟨_, hmove, hopened ▸ hold, ?_⟩
      rw [hopened]
      exact (and_iff_left hok).symm
  | drop t n hheld hholds hopened hbad =>
      refine ⟨_, hholds ▸ h.placed.take hheld, fun m hm => hopened ▸ hold m hm.2, ?_⟩
      refine iff_of_false (fun hall => ?_) fun hand => hbad hand.2
      have hlt : n < s.opened := h.old (.call t) n (by rw [hheld]; exact List.mem_singleton_self n)
      exact (hall n (by omega)).1 rfl

theorem step (h : InCustody s) {a : Handover} (hstep : s.step hp a = some s') :
    InCustody s' ∧ (Accounted s' ↔ Accounted s ∧ handsOn s a) := by
  obtain ⟨live, hplaced, hold, hiff⟩ := h.placed_step (step_moves hstep)
  have hlive : ∀ n, live n ↔ ∃ k, n ∈ s'.holds k := fun n => hplaced.live_iff
  have hseen : Placed s'.holds fun n => ∃ k, n ∈ s'.holds k := hplaced.congr fun n => (hlive n).symm
  have holder : ∀ k, ∀ n ∈ s'.holds k, n < s'.opened := fun k n hk => hold n ((hlive n).mpr ⟨k, hk⟩)
  simp only [hlive] at hiff
  refine ⟨?_, hiff⟩
  rcases pool_step hstep with ⟨hpool, hbook, hwrapped⟩ | ⟨b, hpool, hbook, hwrapped⟩
  · refine ⟨?_, hpool ▸ h.flight, ?_, ?_, hseen, holder⟩
    · rw [hpool, hbook]
      exact h.kept
    · rw [hpool, hwrapped]
      exact h.length
    · rw [hpool, hbook]
      exact h.attended
  · refine ⟨hbook ▸ h.kept.step hpool, h.flight.step hpool, ?_, fun i => h.attended_step hpool hbook,
      hseen, holder⟩
    rw [hwrapped, h.length, made_makes hpool]

-- A connection that was made is cared for, and with it its transport.
theorem cared (h : InCustody s) {i : Nat} (hi : i < s.wrapped.length) : s.Cared i := by
  rcases h.attended i (h.length ▸ hi) with hborn | hin
  · exact .inl hborn
  · by_cases hcalled : i ∈ s.book.called
    · exact .inr (.inr hcalled)
    · exact .inr (.inl (h.kept.placed.live_iff.mp ⟨hin, hcalled⟩))

theorem tidy_iff (h : InCustody s) :
    Tidy s ↔ Accounted s ∧ ∀ entry ∈ s.stray, entry.2 = none := by
  constructor
  · intro ht
    refine ⟨fun n hn => ?_, ht.unowned⟩
    rcases ht.kept n hn with hshut | ⟨t, hhand⟩ | ⟨i, hi, _⟩
    · exact ⟨.shut, hshut⟩
    · exact ⟨.call t, Option.mem_toList.mpr hhand⟩
    · exact ⟨.wrapped, List.mem_of_getElem? hi⟩
  · rintro ⟨hacc, hunowned⟩
    refine ⟨fun n hn => ?_, hunowned⟩
    obtain ⟨k, hk⟩ := hacc n hn
    cases k with
    | call t => exact .inr (.inl ⟨t, Option.mem_toList.mp hk⟩)
    | shut => exact .inl hk
    | wrapped =>
        obtain ⟨i, hi⟩ := List.mem_iff_getElem?.mp hk
        obtain ⟨hlt, _⟩ := List.getElem?_eq_some_iff.mp hi
        exact .inr (.inr ⟨i, hi, h.cared hlt⟩)

end InCustody

-- Only a caller that vanishes leaves a reference behind.
theorem step_stray {hp : Hpack ε δ} {s s' : Custody ε δ} {a : Handover} (hstep : s.step hp a = some s') :
    (s'.stray = s.stray ∧ letsGo s a ∧ returns s a) ∨
      ∃ t i, a = .vanish t ∧ s.pool.caller t = .holding i ∧
        s'.stray = s.stray ++ if s.owns t then [(i, (s.hand t).built)] else [] := by
  cases step_handed hstep with
  | session _ hs | begin _ _ hs | submit _ hs | refuse hs | mute _ hs | http1 _ hs | broken _ _ hs
  | made _ _ hs =>
      obtain ⟨pool, _, rfl⟩ := advance_some hs
      exact .inl ⟨rfl, trivial, trivial⟩
  | opening _ | h2 _ | exchanged _ => exact .inl ⟨rfl, trivial, trivial⟩
  | @lose t n hcaller hhand =>
      refine .inl ⟨rfl, ?_, ?_⟩
      · intro _
        rw [hhand]
        rfl
      · intro i hi
        rw [hcaller] at hi
        cases hi
  | @leave t i next hcaller _ hs =>
      obtain ⟨pool, _, rfl⟩ := advance_some hs
      exact .inr ⟨t, i, rfl, hcaller, rfl⟩

theorem unowned_step {hp : Hpack ε δ} {s s' : Custody ε δ} {a : Handover} (hstep : s.step hp a = some s') :
    (∀ entry ∈ s'.stray, entry.2 = none) ↔ (∀ entry ∈ s.stray, entry.2 = none) ∧ letsGo s a := by
  rcases step_stray hstep with ⟨hstray, hgo, _⟩ | ⟨t, i, rfl, _, hstray⟩
  · rw [hstray]
    exact (and_iff_left hgo).symm
  · rw [hstray]
    cases howns : s.owns t with
    | true => simp [letsGo, howns, or_imp, forall_and]
    | false => simp [letsGo, howns]

theorem stray_step {hp : Hpack ε δ} {s s' : Custody ε δ} {a : Handover} (hstep : s.step hp a = some s') :
    s'.stray = [] ↔ s.stray = [] ∧ returns s a := by
  rcases step_stray hstep with ⟨hstray, _, hreturns⟩ | ⟨t, i, rfl, hcaller, hstray⟩
  · rw [hstray]
    exact (and_iff_left hreturns).symm
  · rw [hstray]
    cases howns : s.owns t with
    | true => simp [returns, howns, hcaller]
    | false => simp [returns, howns]

-- In every state that the session can come to, `_creating` has the keys that
-- callers connect for and no others. Every transport is accounted for exactly
-- when none was dropped on the way: ALPN answered, the first write of every
-- connection succeeded and its reader started, and no caller vanished with what
-- its call had opened or with a reference on it. No reference at all is left
-- behind exactly when no caller vanished with one.
theorem transports_kept_iff (hp : Hpack ε δ) (maxConns : Nat) (acts : List Handover) (s : Custody ε δ)
    (hrun : Transition.run (Custody.step hp) (.start hp maxConns) acts = some s) :
    (∀ key, key ∈ s.pool.creating ↔ ∃ t, (s.pool.caller t).connects = some key) ∧
    (Tidy s ↔ Transition.Meets (Custody.step hp) losesNothing (.start hp maxConns) acts) ∧
    (s.stray = [] ↔ Transition.Meets (Custody.step hp) returns (.start hp maxConns) acts) := by
  have hsound : InCustody s := Transition.invariant_always InCustody (fun _ _ _ hi hs => (hi.step hs).1)
    (.start hp maxConns) hrun
  refine ⟨hsound.flight.creating, ?_, ?_⟩
  · have hends : (Accounted s ∧ ∀ entry ∈ s.stray, entry.2 = none) ↔
        (Accounted (Custody.start hp maxConns) ∧
          ∀ entry ∈ (Custody.start hp maxConns).stray, entry.2 = none) ∧
        Transition.Meets (Custody.step hp) losesNothing (.start hp maxConns) acts := by
      refine Transition.end_iff InCustody (fun s => Accounted s ∧ ∀ entry ∈ s.stray, entry.2 = none) ?_
        (.start hp maxConns) hrun
      intro s a next hs hstep
      obtain ⟨hnext, hacc⟩ := hs.step hstep
      refine ⟨hnext, ?_⟩
      rw [hacc, unowned_step hstep, losesNothing]
      exact and_and_and_comm
    rw [hsound.tidy_iff, hends]
    refine and_iff_right ⟨?_, ?_⟩
    · intro n hn
      cases hn
    · intro entry hentry
      cases hentry
  · have hends : s.stray = [] ↔ (Custody.start hp maxConns).stray = [] ∧
        Transition.Meets (Custody.step hp) returns (.start hp maxConns) acts :=
      Transition.end_iff (fun _ => True) (fun s => s.stray = [])
        (fun s a next _ hstep => ⟨trivial, stray_step hstep⟩) trivial hrun
    rw [hends]
    exact and_iff_right rfl

-- A task's call for a cold host, up to the transport.
def opensTransport : List Handover :=
  [.submit 0 originKey, .session (.closeNext 0), .session (.scan 0), .opening 0]

-- The call makes its connection, and the task goes on to send on it.
theorem transports_kept_cold_host :
    ∃ s, Transition.run (Custody.step recorder) (.start recorder 6) (opensTransport ++
        [.alpn 0 (some "h2"), .construct 0 (fun _ => none) true, .session (.acquire 0),
          .session (.insert 0), .session (.leave 0), .session (.send 0 getRequest)]) = some s ∧
      s.opened = 1 ∧ s.wrapped = [0] ∧ s.pool.pooled originKey = [0] ∧ Tidy s ∧ s.stray = [] := by
  refine ⟨_, rfl, rfl, rfl, by decide, ?_, rfl⟩
  refine (transports_kept_iff recorder 6 (opensTransport ++ [.alpn 0 (some "h2"),
    .construct 0 (fun _ => none) true, .session (.acquire 0), .session (.insert 0), .session (.leave 0),
    .session (.send 0 getRequest)]) _ rfl).2.1.mpr ?_
  exact ⟨⟨trivial, trivial⟩, ⟨trivial, trivial⟩, ⟨trivial, trivial⟩, ⟨trivial, trivial⟩, ⟨rfl, trivial⟩,
    ⟨⟨rfl, rfl⟩, trivial⟩, ⟨trivial, trivial⟩, ⟨trivial, trivial⟩, ⟨trivial, trivial⟩,
    ⟨trivial, trivial⟩, trivial⟩

-- The opening write of the connection fails; or the task is cancelled while its
-- call goes on, and the transport that the call returns is nobody's, or the
-- reference on the connection.
theorem transports_leak :
    (∃ s, Transition.run (Custody.step recorder) (.start recorder 6) (opensTransport ++
        [.alpn 0 (some "h2"), .construct 0 (fun _ => some 0) true, .session (.leave 0)]) = some s ∧
      s.pool.caller 0 = .idle ∧ ¬Tidy s) ∧
    (∃ s, Transition.run (Custody.step recorder) (.start recorder 6) (opensTransport ++
        [.alpn 0 (some "http/1.1"), .session (.leave 0), .vanish 0]) = some s ∧
      s.pool.caller 0 = .idle ∧ ¬Tidy s) ∧
    ∃ s, Transition.run (Custody.step recorder) (.start recorder 6) (opensTransport ++
        [.alpn 0 (some "h2"), .construct 0 (fun _ => none) true, .session (.acquire 0),
          .session (.insert 0), .session (.leave 0), .vanish 0]) = some s ∧
      s.pool.caller 0 = .idle ∧ (s.pool.conns 0).refs = 1 ∧ ¬Tidy s := by
  have hlost : ∀ s : Custody Nat (List Bytes), s.opened = 1 → s.shut = [] → s.wrapped = [] →
      (∀ t, (s.hand t).transport = none) → ¬Tidy s := by
    intro s hopened hshut hwrapped hhand ht
    rcases ht.kept 0 (by omega) with h | ⟨t, h⟩ | ⟨i, h, _⟩
    · rw [hshut] at h
      cases h
    · rw [hhand] at h
      cases h
    · rw [hwrapped] at h
      cases h
  refine ⟨⟨_, rfl, rfl, hlost _ rfl rfl rfl ?_⟩, ⟨_, rfl, rfl, hlost _ rfl rfl rfl ?_⟩,
    ⟨_, rfl, rfl, rfl, ?_⟩⟩
  · rintro (_ | t) <;> rfl
  · rintro (_ | t) <;> rfl
  · intro ht
    cases ht.unowned (0, some 0) (List.mem_singleton_self _)

end NeverFox.Pool
