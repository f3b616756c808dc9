import NeverFox.H2.Requests
import NeverFox.H2.SendWindow
import NeverFox.H2.Serving

namespace NeverFox.H2

variable {ε δ : Type} {hp : Hpack ε δ} {c c' : Conn ε δ}

-- No write fails, and so none has been cut short.
structure Whole (c : Conn ε δ) : Prop where
  sound : ∀ n, c.tp.fate n = none
  log : ∀ w ∈ c.tp.log, w.cut = none

theorem Conn.upload_cut {args : SendArgs} {w : Write} (h : c.upload hp args = some w) :
    w.cut = c.tp.fate c.tp.log.length := by
  unfold Conn.upload at h
  split at h
  · split at h
    · simp only [Option.ite_none_right_eq_some, Option.some.injEq] at h
      obtain ⟨_, rfl⟩ := h
      rfl
    · cases h
  · cases h

namespace Whole

theorem init (hp : Hpack ε δ) {fate : Nat → Option Nat} (hfate : ∀ n, fate n = none) :
    Whole (.init hp fate) where
  sound := hfate
  log w hw := by
    obtain rfl := List.mem_singleton.mp hw
    rfl

theorem of_same (h : Whole c) (hfate : c'.tp.fate = c.tp.fate) (hlog : c'.tp.log = c.tp.log) : Whole c' where
  sound := hfate ▸ h.sound
  log := hlog ▸ h.log

theorem write (h : Whole c) (frames : List Frame) : Whole (c.write frames).1 where
  sound := h.sound
  log w hw := by
    cases List.mem_append.mp hw with
    | inl hold => exact h.log w hold
    | inr hnew =>
        obtain rfl := List.mem_singleton.mp hnew
        exact h.sound _

theorem micros {kind : FrameType} (hm : Conn.Micros kind c c') : Whole c → Whole c' := by
  refine hm.lift (r := fun a b => Whole a → Whole b) (fun _ => id) (fun _ _ _ hab hbc => hbc ∘ hab)
    fun a b hab h => ?_
  cases hab with
  | credit f _ => exact h.write _
  | control f _ => exact h.write _
  | _ => exact h.of_same rfl rfl

theorem exitReader (h : Whole c) (exc : Exn) : Whole (c.exitReader exc) :=
  h.of_same (Conn.stable_exitReader c exc).fate (ControlOnly.log_failAll c exc)

theorem send (h : Whole c) (args : SendArgs) : Whole (c.send hp args).1 where
  sound := by
    rw [(Conn.sendKept_send hp c args).fate]
    exact h.sound
  log w hw := by
    rw [c.log_send hp args] at hw
    cases List.mem_append.mp hw with
    | inl hold => exact h.log w hold
    | inr hnew =>
        rw [Conn.upload_cut (Option.mem_toList.mp hnew)]
        exact h.sound _

theorem step (h : Whole c) {e : Event} (hs : H2.step hp c e = some c') : Whole c' := by
  cases step_happens hs with
  | frame f => exact micros (Conn.Micros.dispatch hp c f) h
  | raised f exc => exact (micros (Conn.Micros.dispatch hp c f) h).exitReader exc
  | eof | stopped => exact h.exitReader _
  | send args => exact h.send args
  | rst sid => exact micros (Conn.Micros.sendRst c sid : Conn.Micros .rst c _) h
  | close => exact h.of_same (Conn.stable_close c).fate (Conn.log_close c)
  | idle | acquire | refused | pop => exact h.of_same rfl rfl

end Whole

-- What the peer has sent is kept beside the connection.
def receiving (frames : List Frame) (_ : Conn ε δ) (e : Event) (_ : Conn ε δ) : List Frame :=
  frames ++ framesOf [e]

-- The requests that a server gets from what a client has written.
def Server.hears (hp : Hpack ε δ) (wire : Bytes) : Option (List Request) := do
  let frames ← parseFrames wire
  let s ← frames.foldlM (Server.receive hp) (.start hp)
  return s.requests

-- On every stream that the server has ended, it has sent its handler's answer to
-- the request that it got on this stream.
def Replies (hp : Hpack ε δ) (handler : Request → RawResponse) (wire : Bytes)
    (frames : List Frame) : Prop :=
  ∀ requests, Server.hears hp wire = some requests → ∀ r ∈ requests, ended r.sid frames = true →
    responseSent hp r.sid frames = handler r

-- The sends are well, and on stream `sid` the server keeps to the protocol and
-- nobody gives the call up.
def Attends (hp : Hpack ε δ) (sid : Nat) (p : Conn ε δ × List Frame) (e : Event) : Prop :=
  sendsWell hp p.1 e ∧ answers sid p.2 p.1 e ∧ validBlock hp p.1 e = true ∧
    Serving.parsed sid p.1 e = true ∧ (sid < p.1.nextId → Serving.undisturbed sid p.2 e)

-- Requests and responses of all streams may come in any order: the caller of a
-- request is done as soon as the server has ended its stream, and what it gets
-- is the handler's answer to what it sent.
theorem request_answered {sync : ε → δ → Prop} (hsync : RoundTrips hp sync) {events : List Event}
    {k : Nat} {frames : List Frame}
    (hmeets : Transition.Meets (Transition.noting (step hp) receiving) (Attends hp (2 * k + 1))
      (.init hp fun _ => none, []) events)
    (hrun : Transition.run (Transition.noting (step hp) receiving) (.init hp fun _ => none, []) events =
      some (c, frames))
    (hfew : (sendsOf events).length ≤ 2 ^ 30) {args : SendArgs} (hargs : (sendsOf events)[k]? = some args)
    {handler : Request → RawResponse} (hreplies : Replies hp handler c.wire frames) :
    ∃ requests r, Server.hears hp c.wire = some requests ∧ r ∈ requests ∧ r.sid = 2 * k + 1 ∧
      Carries args r ∧ (c.obj (2 * k + 1)).done = ended (2 * k + 1) frames ∧
      (ended (2 * k + 1) frames = true → Conn.outcome (c.obj (2 * k + 1)) = .ok (handler r)) := by
  have hplain : Transition.run (step hp) (.init hp fun _ => none) events = some c := by
    have hfst : _ = Transition.run (step hp) _ events :=
      Transition.run_noting receiving (.init hp fun _ => none) [] events
    rw [hrun] at hfst
    exact hfst.symm
  have hwell := (hmeets.imp fun _ _ h => h.1).of_noting
  obtain ⟨s, hheard⟩ := heard_run hsync (fun _ => none) hwell hplain hfew
  have hwhole : Whole c :=
    Transition.invariant_always Whole (fun _ _ _ h hs => h.step hs) (Whole.init hp fun _ => rfl) hplain
  have htracked : Tracked hp (2 * k + 1) c frames := by
    refine Transition.invariant (fun p : Conn ε δ × List Frame => Tracked hp (2 * k + 1) p.1 p.2)
      (fun p e next h hok hs => ?_) (Tracked.init hp (fun _ => rfl) (by omega)) hmeets hrun
    obtain ⟨hstep, hnext⟩ := Transition.noting_eq_some hs
    obtain ⟨_, hanswers, hvalid, hparsed, hundisturbed⟩ := hok
    rw [hnext]
    exact h.step (by omega) hanswers hvalid hparsed hundisturbed hstep
  have hlt := (List.getElem?_eq_some_iff.mp hargs).1
  have hopen : 2 * k + 1 < c.nextId := by
    have hnext := hheard.next
    omega
  have hserving := htracked.serving hopen
  -- The k-th request that the server got is on this stream.
  have hlen := hheard.carries.length_eq
  have hget : k < s.requests.length := by omega
  have hsid : (s.requests.get ⟨k, hget⟩).sid = 2 * k + 1 := by
    have hat : (s.requests.map Request.sid)[k]? = some (2 * k + 1) := by
      rw [hheard.sids, List.getElem?_map, List.getElem?_range hlt]
      rfl
    rw [List.getElem?_map, List.getElem?_eq_getElem hget] at hat
    exact Option.some.inj hat
  have hcarries : Carries args (s.requests.get ⟨k, hget⟩) := by
    have hk := hheard.carries.get hlt hget
    rw [List.get_eq_getElem, (List.getElem?_eq_some_iff.mp hargs).2] at hk
    exact hk
  have hhears : Server.hears hp c.wire = some s.requests := by
    unfold Server.hears
    rw [wire_whole hwhole.log, parseFrames_flatMap hheard.legible]
    simp only [Option.bind_eq_bind, Option.bind_some, hheard.frames]
    rfl
  have hmem : s.requests.get ⟨k, hget⟩ ∈ s.requests := List.get_mem _ _
  refine ⟨s.requests, _, hhears, hmem, hsid, hcarries, hserving.done, fun hended => ?_⟩
  rw [hserving.outcome, ← hreplies s.requests hhears _ hmem (by rw [hsid]; exact hended), hsid]

-- A codec of one request and one response, with no tables.
def bareCodec : Hpack Unit Unit where
  encoder := ()
  decoder := ()
  encode _ fields := ((), if fields = getFields then .ok (getBlock false) else .error .hpackError)
  decode _ block := ((), if block = getBlock false then .ok getFields
    else if block = [0x88] then .ok [(":status", "200")] else .error .hpackError)

theorem bareCodec_roundTrips : RoundTrips bareCodec fun _ _ => True where
  start := trivial
  decode _ _ fields block _ h := by
    simp only [bareCodec] at h ⊢
    split at h
    · next hfields =>
      obtain rfl := Except.ok.inj h
      rw [if_pos rfl, hfields]
    · cases h
  step _ _ _ _ _ _ := trivial

-- The server answers the second request first.
def crossed : List Event :=
  [.send getRequest, .send getRequest, .frame (answer 3 [0x88]), .frame (answer 1 [0x88])]

theorem request_answered_crossed :
    ∃ c frames, Transition.run (Transition.noting (step bareCodec) receiving)
        (.init bareCodec fun _ => none, []) crossed = some (c, frames) ∧
      Conn.outcome (c.obj 1) = .ok ⟨some 200, [], []⟩ := by
  have hsend : ∀ c, sendsWell bareCodec c (.send getRequest) ↔
      (∃ sid, (c.send bareCodec getRequest).2 = .ok sid) := by
    refine fun c => ⟨fun h => h.1, fun h => ⟨h, fun fields block hfields hblock => ?_⟩⟩
    obtain rfl : getFields = fields := Option.some.inj hfields
    obtain rfl : getBlock false = block := Except.ok.inj hblock
    decide
  have hmeets : Transition.Meets (Transition.noting (step bareCodec) receiving) (Attends bareCodec 1)
      (.init bareCodec fun _ => none, []) crossed := by
    refine ⟨⟨(hsend _).mpr ⟨1, by decide⟩, trivial, by decide, by decide, fun _ => trivial⟩,
      ⟨(hsend _).mpr ⟨3, by decide⟩, trivial, by decide, by decide, fun _ => trivial⟩,
      ⟨trivial, ⟨by decide, by decide, by decide, by decide, nofun, fun _ => by decide⟩, by decide,
        by decide, fun _ => trivial⟩,
      ⟨trivial, ⟨by decide, by decide, by decide, fun _ _ => by decide, nofun, fun _ => by decide⟩,
        by decide, by decide, fun _ => trivial⟩, trivial⟩
  obtain ⟨c, hrun, hheard, hended⟩ : ∃ c,
      Transition.run (Transition.noting (step bareCodec) receiving) (.init bareCodec fun _ => none, [])
        crossed = some (c, [answer 3 [0x88], answer 1 [0x88]]) ∧
      Server.hears bareCodec c.wire = some [⟨1, getFields, [], [true]⟩, ⟨3, getFields, [], [true]⟩] ∧
      ended 1 [answer 3 [0x88], answer 1 [0x88]] = true :=
    ⟨_, rfl, by decide, by decide⟩
  have hreplies : Replies bareCodec (fun _ => ⟨some 200, [], []⟩) c.wire
      [answer 3 [0x88], answer 1 [0x88]] := by
    intro requests hrequests
    obtain rfl := Option.some.inj (hheard.symm.trans hrequests)
    simp only [List.forall_mem_cons]
    exact ⟨fun _ => by decide, fun _ => by decide, nofun⟩
  obtain ⟨_, _, _, _, _, _, _, hout⟩ :=
    request_answered (k := 0) bareCodec_roundTrips hmeets hrun (by decide) rfl hreplies
  exact ⟨c, _, hrun, hout hended⟩

end NeverFox.H2
