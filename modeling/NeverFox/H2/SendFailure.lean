import NeverFox.H2.Lemmas
import NeverFox.H2.Peer

namespace NeverFox.H2

variable {ε δ : Type}

-- What the claim of a harmless failure leaves: nothing used up, or a dead connection.
def Unharmed (c c' : Conn ε δ) : Prop :=
  (c'.enc = c.enc ∧ c'.nextId = c.nextId ∧ c'.streams = c.streams) ∨ c'.closed = true

instance [DecidableEq ε] (c c' : Conn ε δ) : Decidable (Unharmed c c') :=
  inferInstanceAs (Decidable (_ ∨ _))

-- Everything behind the allocation of the id goes through: the list encodes,
-- the frames pack, the body is octets and the write goes out whole.
def emits (hp : Hpack ε δ) (c : Conn ε δ) (args : SendArgs) (fields : List Header) : Bool :=
  match (hp.encode c.enc fields).2, args.body with
  | .ok block, .bytes _ =>
      (headersFrame c.nextId block (!args.body.truthy)).packs && (c.tp.fate c.tp.log.length).isNone
  | _, _ => false

-- A send that either stops at its own checks or has every later step succeed.
def safeSend (hp : Hpack ε δ) (c : Conn ε δ) (args : SendArgs) : Bool :=
  c.closed || match args.fields with
    | none => true
    | some fields => emits hp c args fields

def safeEvent (hp : Hpack ε δ) (c : Conn ε δ) : Event → Bool
  | .send args => safeSend hp c args
  | _ => true

theorem emits_iff (hp : Hpack ε δ) (c : Conn ε δ) (args : SendArgs) (fields : List Header) :
    emits hp c args fields ↔
      ((c.allocate.register c.nextId args.maxBytes).emit hp c.nextId fields args.body).2 = none := by
  rcases (c.allocate.register c.nextId args.maxBytes).emit_cases hp c.nextId fields args.body with
    ⟨exc, hcause, hm⟩ | ⟨block, data, hb, hd, hpacks, hm⟩ <;> rw [hm]
  · have hfalse : emits hp c args fields = false := by
      unfold emits
      rcases hcause with hn | ⟨truthy, hb⟩ | ⟨block, he, hpacks⟩
      · split
        · rename_i block _ he _
          exact absurd he (hn block)
        · rfl
      · split
        · rename_i he
          rw [hb] at he
          cases he
        · rfl
      · have he' : (hp.encode c.enc fields).2 = .ok block := he
        rw [he']
        split
        · rename_i heq _
          cases heq
          simp [hpacks]
        · rfl
    simp [hfalse]
  · have he : (hp.encode c.enc fields).2 = .ok block := hb
    unfold emits
    rw [he, hd]
    rw [hd] at hpacks
    simp [hpacks, Conn.write, Conn.setEncoder, Conn.register, Conn.allocate]

-- A failed send is harmless exactly when it fails before it has taken an id.
theorem send_unharmed_iff (hp : Hpack ε δ) (c : Conn ε δ) (args : SendArgs) :
    (∀ exc, (c.send hp args).2 = .error exc → Unharmed c (c.send hp args).1) ↔
      safeSend hp c args := by
  have hclosed : (c.send hp args).1.closed = c.closed := (c.sendKept_send hp args).closed
  unfold safeSend
  rcases c.trySend_cases hp args with ⟨hearly, exc, he⟩ | ⟨fields, hopen, hf, he⟩
  · rw [c.send_fst, he]
    constructor
    · intro _
      rcases hearly with hc | hn
      · simp [hc]
      · simp [hn]
    · intro _ _ _
      exact .inl ⟨rfl, rfl, rfl⟩
  · have hnext : (c.send hp args).1.nextId = c.nextId + 2 := by
      obtain ⟨writes, hm⟩ := (c.allocate.register c.nextId args.maxBytes).emit_state hp c.nextId
        fields args.body
      rw [c.send_fst, he, hm]
      rfl
    have hharmed : ¬Unharmed c (c.send hp args).1 := by
      rintro (⟨_, hn, _⟩ | hc)
      · omega
      · rw [hclosed, hopen] at hc
        cases hc
    simp only [hopen, hf, Bool.false_or, emits_iff]
    rw [c.send_snd, he]
    constructor
    · intro h
      by_contra hne
      obtain ⟨exc, hr⟩ := Option.ne_none_iff_exists'.mp hne
      exact hharmed (h exc (by simp [hr]))
    · intro hnone exc hexc
      simp [hnone] at hexc

-- The states an encoder goes through and the blocks it produces on the way.
inductive Produced (hp : Hpack ε δ) : ε → List Bytes → Prop
  | start : Produced hp hp.encoder []
  | next {enc : ε} {blocks : List Bytes} {fields : List Header} {block : Bytes}
      (before : Produced hp enc blocks) (he : (hp.encode enc fields).2 = .ok block) :
      Produced hp (hp.encode enc fields).1 (blocks ++ [block])

-- The HEADERS frames that have gone out whole, in order.
def Conn.sentHeads (c : Conn ε δ) : List Frame :=
  c.tp.log.flatMap fun w => if w.cut = none then w.frames.filter (·.ftype = .headers) else []

def headBlock (f : Frame) : Bytes := if f.has F_PRIORITY then f.payload.drop 5 else f.payload

-- Every block the encoder produced is on the wire, and every registered stream was sent.
structure AllSent (hp : Hpack ε δ) (c : Conn ε δ) : Prop where
  produced : Produced hp c.enc (c.sentHeads.map headBlock)
  streams : ∀ sid ∈ c.streams, sid ∈ c.sentHeads.map Frame.sid

theorem headBlock_headersFrame (sid : Nat) (block : Bytes) (endStream : Bool) :
    headBlock (headersFrame sid block endStream) = block := by
  have hwith : ∀ fin : UInt8, fin = F_END_STREAM ∨ fin = 0 →
      (F_END_HEADERS ||| F_PRIORITY ||| fin) &&& F_PRIORITY ≠ 0 := by
    rintro fin (rfl | rfl) <;> decide
  have hwithout : ∀ fin : UInt8, fin = F_END_STREAM ∨ fin = 0 →
      (F_END_HEADERS ||| fin) &&& F_PRIORITY = 0 := by
    rintro fin (rfl | rfl) <;> decide
  have hfin : (if endStream then F_END_STREAM else 0) = F_END_STREAM ∨
      (if endStream then F_END_STREAM else 0) = (0 : UInt8) := by
    cases endStream <;> simp
  unfold headBlock headersFrame Frame.has
  by_cases hs : sid = 1
  · simp only [hs, ↓reduceIte, bne_iff_ne, hwith _ hfin, ne_eq, not_false_eq_true]
    rfl
  · simp [hs, hwithout _ hfin]

theorem heads_request (sid : Nat) (block data : Bytes) (endStream : Bool) :
    (headersFrame sid block endStream :: dataFrames sid data).filter (·.ftype = .headers) =
      [headersFrame sid block endStream] := by
  have hdata : (dataFrames sid data).filter (·.ftype = .headers) = [] := by
    rw [List.filter_eq_nil_iff]
    intro f hf
    simp [dataFrames_ftype sid data f hf]
  simp [hdata]

theorem sentHeads_of_control {c c' : Conn ε δ} (h : Conn.ControlWrites c c') :
    c'.sentHeads = c.sentHeads := by
  obtain ⟨writes, hw, hf⟩ := h
  have hnone : writes.flatMap (fun w => if w.cut = none then w.frames.filter (·.ftype = .headers)
      else []) = [] := by
    rw [List.flatMap_eq_nil_iff]
    intro w hm
    split
    · rw [List.filter_eq_nil_iff]
      intro f hff
      simpa using (hf w hm f hff).1
    · rfl
  unfold Conn.sentHeads
  rw [hw, List.flatMap_append, hnone, List.append_nil]

theorem sentHeads_write (c : Conn ε δ) (frames : List Frame)
    (hcut : c.tp.fate c.tp.log.length = none) :
    (c.write frames).1.sentHeads = c.sentHeads ++ frames.filter (·.ftype = .headers) := by
  simp only [Conn.sentHeads, Conn.write, List.flatMap_append, List.flatMap_cons, List.flatMap_nil,
    hcut, ↓reduceIte, List.append_nil]

namespace AllSent

variable {hp : Hpack ε δ} {c c' : Conn ε δ}

theorem keep (h : AllSent hp c) (hw : Conn.ControlWrites c c') (henc : c'.enc = c.enc)
    (hs : c'.streams ⊆ c.streams) : AllSent hp c' :=
  ⟨by rw [henc, sentHeads_of_control hw]; exact h.produced,
    by rw [sentHeads_of_control hw]; exact fun sid hm => h.streams sid (hs hm)⟩

theorem stable (h : AllSent hp c) (hw : Conn.ControlWrites c c') (hk : Conn.Stable c c') :
    AllSent hp c' :=
  h.keep hw hk.enc (by rw [hk.streams]; exact List.Subset.refl _)

theorem init (hp : Hpack ε δ) (fate : Nat → Option Nat) : AllSent hp (Conn.init hp fate) :=
  ⟨Produced.start, by simp [Conn.init]⟩

theorem send (h : AllSent hp c) (args : SendArgs) (hsafe : safeSend hp c args) :
    AllSent hp (c.send hp args).1 := by
  rw [c.send_fst]
  suffices hs : AllSent hp (c.trySend hp args).1 from
    hs.keep (.of_log rfl) rfl (List.Subset.refl _)
  rcases c.trySend_cases hp args with ⟨_, exc, he⟩ | ⟨fields, hopen, hf, he⟩
  · rw [he]
    exact h
  · have hemits : emits hp c args fields := by simpa [safeSend, hopen, hf] using hsafe
    rw [emits_iff] at hemits
    have hfst := congrArg Prod.fst he
    dsimp only at hfst
    rw [hfst]
    have hstreams : ∀ sid ∈ (c.allocate.register c.nextId args.maxBytes).streams,
        sid ∈ c.streams ∨ sid = c.nextId := by
      intro sid hs
      unfold Conn.register Conn.allocate at hs
      dsimp only at hs
      split at hs
      · exact .inl hs
      · simpa using hs
    rcases (c.allocate.register c.nextId args.maxBytes).emit_cases hp c.nextId fields args.body with
      ⟨exc, _, hm⟩ | ⟨block, data, hb, _, _, hm⟩ <;> rw [hm] at hemits ⊢
    · cases hemits
    · have hcut : c.tp.fate c.tp.log.length = none := by
        simpa [Conn.write, Conn.setEncoder, Conn.register, Conn.allocate] using hemits
      have hheads := sentHeads_write
        ((c.allocate.register c.nextId args.maxBytes).setEncoder
          (hp.encode (c.allocate.register c.nextId args.maxBytes).enc fields).1)
        (headersFrame c.nextId block (!args.body.truthy) :: dataFrames c.nextId data) hcut
      rw [heads_request] at hheads
      constructor
      · rw [hheads, List.map_append, List.map_singleton, headBlock_headersFrame]
        exact Produced.next h.produced hb
      · intro sid hs
        rw [hheads, List.map_append, List.map_singleton, headersFrame_sid, List.mem_append]
        rcases hstreams sid hs with hs | rfl
        · exact .inl (h.streams sid hs)
        · exact .inr (List.mem_singleton.mpr rfl)

theorem step (h : AllSent hp c) {e : Event} (hsafe : safeEvent hp c e) (hs : H2.step hp c e = some c') :
    AllSent hp c' := by
  have hdispatch : ∀ f, AllSent hp (c.dispatch hp f).1 := fun f =>
    h.stable (.of_micros (Conn.Micros.dispatch hp c f)) (c.kept_dispatch hp f).toStable
  have hexit : ∀ {c : Conn ε δ}, AllSent hp c → ∀ exc, AllSent hp (c.exitReader exc) := fun h exc =>
    h.stable (.exitReader _ exc) (Conn.stable_exitReader _ exc)
  cases step_happens hs with
  | frame f => exact hdispatch f
  | raised f exc => exact hexit (hdispatch f) exc
  | eof | stopped => exact hexit h _
  | idle | refused => exact h
  | acquire => exact h.keep (.of_log rfl) rfl (List.Subset.refl _)
  | send args => exact h.send args hsafe
  | rst sid =>
      exact h.stable (.of_micros (Conn.Micros.sendRst c sid : Conn.Micros .rst c _)) (c.kept_sendRst sid).toStable
  | pop sid => exact h.keep (.of_log rfl) rfl List.erase_subset
  | close => exact h.stable (.of_log c.log_close) c.stable_close

end AllSent

-- Nothing reopens a connection.
theorem closed_step (hp : Hpack ε δ) (c c' : Conn ε δ) (e : Event) (hc : c.closed = true)
    (hs : step hp c e = some c') : c'.closed = true := by
  cases step_happens hs with
  | frame f => exact (c.kept_dispatch hp f).closed hc
  | raised f exc => exact Conn.closed_exitReader _ exc
  | eof | stopped => exact c.closed_exitReader _
  | idle | refused | acquire | pop => exact hc
  | send args => exact (c.sendKept_send hp args).closed.trans hc
  | rst sid => exact (c.kept_sendRst sid).closed hc
  | close =>
      rcases c.close_cases with ⟨_, he⟩ | ⟨_, he⟩ | ⟨_, he⟩ <;> rw [he]
      exact hc

-- A send that raises is harmless exactly when it raises before it takes an id.
-- Runs of harmless sends keep encoder and wire together, and a connection once
-- closed is refused for good.
theorem failed_send_unharmed_iff (hp : Hpack ε δ) :
    (∀ (c : Conn ε δ) (args : SendArgs),
      (∀ exc, (c.send hp args).2 = .error exc → Unharmed c (c.send hp args).1) ↔
        safeSend hp c args) ∧
    (∀ (fate : Nat → Option Nat) (events : List Event) (c : Conn ε δ),
      Transition.Meets (step hp) (fun c e => safeEvent hp c e) (Conn.init hp fate) events →
      Transition.run (step hp) (Conn.init hp fate) events = some c → AllSent hp c) ∧
    ∀ (c c' : Conn ε δ) (events : List Event), c.closed = true →
      Transition.run (step hp) c events = some c' → c'.acquirable = false := by
  refine ⟨send_unharmed_iff hp, ?_, ?_⟩
  · intro fate events c hmeets hrun
    exact Transition.invariant (AllSent hp) (fun _ _ _ hi hok hs => hi.step hok hs)
      (AllSent.init hp fate) hmeets hrun
  · intro c c' events hc hrun
    have hend : c'.closed = true := Transition.invariant_always (fun c => c.closed = true)
      (fun c e c' hc hs => closed_step hp c c' e hc hs) hc hrun
    simp [Conn.acquirable, hend]

theorem failed_send_unharmed_one_request :
    ∃ c, Transition.run (step recorder) (Conn.init recorder fun _ => none)
        [.acquire, .send getRequest] = some c ∧ AllSent recorder c ∧ c.active = 1 :=
  ⟨_, rfl, (failed_send_unharmed_iff recorder).2.1 (fun _ => none) [.acquire, .send getRequest] _
    (by decide) rfl, rfl⟩

-- A list for a body raises once the header block is encoded: the id, the
-- encoder step and the table entry stay, and the pool goes on handing it out.
theorem list_body_harms_connection :
    ∃ c c' : Conn Nat (List Bytes), ∃ args exc,
      Transition.run (step recorder) (Conn.init recorder fun _ => none) [.acquire] = some c ∧
      c.send recorder args = (c', .error exc) ∧ ¬Unharmed c c' ∧
      c'.acquirable = true ∧ c'.active = 1 ∧ c'.sentHeads = [] :=
  ⟨_, _, { getRequest with body := .other true }, .typeError, rfl, rfl,
    by decide, by decide, by decide, by decide⟩

end NeverFox.H2
