import NeverFox.H2.Lemmas
import NeverFox.H2.Peer

namespace NeverFox.H2

variable {ε δ : Type}

-- The header block that a frame completes: its stream and its collected octets.
def Conn.blockEnd (c : Conn ε δ) (f : Frame) : Option (Nat × Bytes) :=
  match f.ftype with
  | .headers => if f.endHeaders then some (f.sid, f.payload) else none
  | .continuation => if f.endHeaders then c.hsid.map (·, c.hbuf ++ f.payload) else none
  | _ => none

def numericStatus (fields : List Header) : Bool :=
  fields.all fun field => field.1 != ":status" || (PyText.intOfStr 10 field.2.toList).isSome

-- The decoder accepts the block and every status in it is a number.
def validBlock (hp : Hpack ε δ) (c : Conn ε δ) : Event → Bool
  | .frame f => (c.blockEnd f).all fun block =>
      match (hp.decode c.dec block.2).2 with
      | .ok fields => numericStatus fields
      | .error _ => false
  | _ => true

-- A completed block finds its stream registered, and no HEADERS frame carries
-- padding or priority fields.
def blockHeard (c : Conn ε δ) : Event → Bool
  | .frame f =>
      !(f.ftype = .headers && (f.has F_PADDED || f.has F_PRIORITY)) &&
        (c.blockEnd f).all fun block => block.1 ∈ c.streams
  | _ => true

-- The connection's view of header blocks agrees with the yardstick's.
structure InStep (hp : Hpack ε δ) (c : Conn ε δ) (a : Assembly) : Prop where
  dec : c.dec = hp.decodeAll a.blocks
  pending : ∀ block, a.pending = some block →
    c.hsid = some block.sid ∧ c.hbuf = block.fragment ∧ c.hend = block.endStream
  idle : a.pending = none → c.hsid = none
  ids : ∀ sid ∈ c.streams, sid < c.nextId
  blockIds : ∀ block ∈ a.blocks, block.sid < c.nextId
  headers : ∀ sid ∈ c.streams, (c.obj sid).headers = plainFields (hp.sentFields a.blocks sid)
  status : ∀ sid ∈ c.streams, (c.obj sid).status = statusOf (hp.sentFields a.blocks sid)

-- A step that no header block has a part in.
structure HeadersKept (c c' : Conn ε δ) : Prop where
  dec : c'.dec = c.dec
  hsid : c'.hsid = c.hsid
  hbuf : c'.hbuf = c.hbuf
  hend : c'.hend = c.hend
  nextId : c'.nextId = c.nextId
  streams : c'.streams ⊆ c.streams
  headers : ∀ sid, (c'.obj sid).headers = (c.obj sid).headers
  status : ∀ sid, (c'.obj sid).status = (c.obj sid).status

theorem InStep.keep {hp : Hpack ε δ} {c c' : Conn ε δ} {a : Assembly} (h : InStep hp c a)
    (hk : HeadersKept c c') : InStep hp c' a where
  dec := hk.dec.trans h.dec
  pending block hb := by
    rw [hk.hsid, hk.hbuf, hk.hend]
    exact h.pending block hb
  idle hn := hk.hsid.trans (h.idle hn)
  ids sid hs := hk.nextId ▸ h.ids sid (hk.streams hs)
  blockIds block hb := hk.nextId ▸ h.blockIds block hb
  headers sid hs := (hk.headers sid).trans (h.headers sid (hk.streams hs))
  status sid hs := (hk.status sid).trans (h.status sid (hk.streams hs))

namespace HeadersKept

theorem trans {a b c : Conn ε δ} (h : HeadersKept a b) (h' : HeadersKept b c) : HeadersKept a c :=
  ⟨h'.dec.trans h.dec, h'.hsid.trans h.hsid, h'.hbuf.trans h.hbuf, h'.hend.trans h.hend,
    h'.nextId.trans h.nextId, List.Subset.trans h'.streams h.streams,
    fun sid => (h'.headers sid).trans (h.headers sid),
    fun sid => (h'.status sid).trans (h.status sid)⟩

-- Steps that leave the stream objects alone.
theorem of_obj {c c' : Conn ε δ} (hobj : c'.obj = c.obj) (hdec : c'.dec = c.dec)
    (hsid : c'.hsid = c.hsid) (hbuf : c'.hbuf = c.hbuf) (hend : c'.hend = c.hend)
    (hnext : c'.nextId = c.nextId) (hstreams : c'.streams ⊆ c.streams) : HeadersKept c c' :=
  ⟨hdec, hsid, hbuf, hend, hnext, hstreams, fun _ => hobj ▸ rfl, fun _ => hobj ▸ rfl⟩

theorem same (c : Conn ε δ) : HeadersKept c c :=
  of_obj rfl rfl rfl rfl rfl rfl (List.Subset.refl _)

theorem write (c : Conn ε δ) (frames : List Frame) : HeadersKept c (c.write frames).1 :=
  of_obj rfl rfl rfl rfl rfl rfl (List.Subset.refl _)

theorem modify (c : Conn ε δ) (sid : Nat) (f : Stream → Stream)
    (hh : (f (c.obj sid)).headers = (c.obj sid).headers)
    (hs : (f (c.obj sid)).status = (c.obj sid).status) : HeadersKept c (c.modify sid f) := by
  refine ⟨rfl, rfl, rfl, rfl, rfl, List.Subset.refl _, ?_, ?_⟩ <;> intro other <;>
    by_cases ho : other = sid
  · subst ho; simpa [Conn.modify] using hh
  · simp [Conn.modify, ho]
  · subst ho; simpa [Conn.modify] using hs
  · simp [Conn.modify, ho]

theorem of_micros {kind : FrameType} (hk : ¬(kind = .headers ∨ kind = .continuation))
    {c c' : Conn ε δ} (h : Conn.Micros kind c c') : HeadersKept c c' := by
  refine h.lift same (fun _ _ _ => trans) ?_
  intro c c' hm
  cases hm with
  | block _ _ _ hk' | decode _ hk' | store _ _ hk' => exact absurd hk' hk
  | chunk f | finish sid | fail sid exc => exact modify c _ _ rfl rfl
  | _ => exact of_obj rfl rfl rfl rfl rfl rfl (List.Subset.refl _)

theorem sendRst (c : Conn ε δ) (sid : Nat) : HeadersKept c (c.sendRst sid) :=
  of_micros (by decide) (Conn.Micros.sendRst c sid : Conn.Micros .rst c _)

theorem failAll (c : Conn ε δ) (exc : Exn) : HeadersKept c (c.failAll exc) := by
  unfold Conn.failAll
  exact trans (b := { c with closed := true }) (of_obj rfl rfl rfl rfl rfl rfl (List.Subset.refl _))
    (of_micros (by decide) (Conn.Micros.failItems _ _ _ _ : Conn.Micros .rst _ _))

theorem exitReader (c : Conn ε δ) (exc : Exn) : HeadersKept c (c.exitReader exc) := by
  unfold Conn.exitReader
  exact (failAll c exc).trans (of_obj rfl rfl rfl rfl rfl rfl (List.Subset.refl _))

theorem close (c : Conn ε δ) : HeadersKept c c.close := by
  unfold Conn.close
  split
  · exact same c
  · dsimp only
    have hflags : HeadersKept c { c with closing := true, closed := true, tp := { c.tp with stop := true } } :=
      of_obj rfl rfl rfl rfl rfl rfl (List.Subset.refl _)
    split
    · exact hflags
    · exact (hflags.trans (failAll _ _)).trans
        (of_obj rfl rfl rfl rfl rfl rfl (List.Subset.refl _))

theorem emit (hp : Hpack ε δ) (c : Conn ε δ) (sid : Nat) (fields : List Header) (body : Body) :
    HeadersKept c (c.emit hp sid fields body).1 := by
  unfold Conn.emit
  dsimp only
  split
  · exact of_obj rfl rfl rfl rfl rfl rfl (List.Subset.refl _)
  · split
    · split <;> exact of_obj rfl rfl rfl rfl rfl rfl (List.Subset.refl _)
    · exact of_obj rfl rfl rfl rfl rfl rfl (List.Subset.refl _)

end HeadersKept

namespace InStep

variable {hp : Hpack ε δ} {c : Conn ε δ} {a : Assembly}

theorem init (hp : Hpack ε δ) (fate : Nat → Option Nat) : InStep hp (Conn.init hp fate) {} :=
  ⟨rfl, by simp, fun _ => rfl, by simp [Conn.init], by simp, by simp [Conn.init], by simp [Conn.init]⟩

-- A fresh id has no block yet, so its empty object is what the peer has sent.
theorem register (h : InStep hp c a) (maxBytes : Nat) :
    InStep hp (c.allocate.register c.nextId maxBytes) a := by
  have hfresh : c.nextId ∉ c.streams := fun hm => Nat.lt_irrefl _ (h.ids _ hm)
  have hsent : hp.sentFields a.blocks c.nextId = [] :=
    hp.sentFields_of_fresh a.blocks c.nextId fun block hb => Nat.ne_of_lt (h.blockIds block hb)
  have hmem : ∀ sid ∈ (c.allocate.register c.nextId maxBytes).streams, sid ∈ c.streams ∨ sid = c.nextId := by
    intro sid hs
    simpa [Conn.register, Conn.allocate, hfresh] using hs
  refine ⟨h.dec, h.pending, h.idle, ?_, ?_, ?_, ?_⟩
  · intro sid hs
    have hlt : sid < c.nextId + 2 := by
      rcases hmem sid hs with hs | rfl
      · exact Nat.lt_of_lt_of_le (h.ids sid hs) (Nat.le_add_right _ _)
      · omega
    exact hlt
  · intro block hb
    exact Nat.lt_of_lt_of_le (h.blockIds block hb) (Nat.le_add_right _ _)
  · intro sid hs
    by_cases he : sid = c.nextId
    · subst he; simp [Conn.register, Conn.allocate, hsent, plainFields]
    · have hold := (hmem sid hs).resolve_right he
      simpa [Conn.register, Conn.allocate, he] using h.headers sid hold
  · intro sid hs
    by_cases he : sid = c.nextId
    · subst he; simp [Conn.register, Conn.allocate, hsent, statusOf]
    · have hold := (hmem sid hs).resolve_right he
      simpa [Conn.register, Conn.allocate, he] using h.status sid hold

theorem send (h : InStep hp c a) (args : SendArgs) : InStep hp (c.send hp args).1 a := by
  have hrelease : ∀ {c : Conn ε δ}, InStep hp c a → InStep hp c.release a := fun h =>
    h.keep (HeadersKept.of_obj rfl rfl rfl rfl rfl rfl (List.Subset.refl _))
  unfold Conn.send
  apply hrelease
  rcases c.trySend_cases hp args with ⟨_, exc, he⟩ | ⟨fields, _, _, he⟩
  · rw [he]
    exact h
  · rw [he]
    exact (h.register args.maxBytes).keep (HeadersKept.emit hp _ c.nextId fields args.body)

theorem begin (h : InStep hp c a) (block : Block) :
    InStep hp { c with hsid := some block.sid, hbuf := block.fragment, hend := block.endStream }
      { a with pending := some block } :=
  ⟨h.dec, by rintro _ ⟨⟩; exact ⟨rfl, rfl, rfl⟩, nofun, h.ids, h.blockIds, h.headers, h.status⟩

-- A valid block of a registered stream is decoded in turn and stored whole.
theorem finishHeaders {block : Block} (h : InStep hp c { a with pending := some block })
    (hin : block.sid ∈ c.streams) {fields : List Header}
    (hdec : (hp.decode c.dec block.fragment).2 = .ok fields) (hnum : numericStatus fields) :
    (c.finishHeaders hp).2 = none ∧
      InStep hp (c.finishHeaders hp).1 { pending := none, blocks := a.blocks ++ [block] } := by
  obtain ⟨hsid, hbuf, hend⟩ := h.pending block rfl
  have hvalid : ∀ field ∈ fields, field.1 = ":status" →
      (PyText.intOfStr 10 field.2.toList).isSome := by
    intro field hf hn
    have hall := List.all_eq_true.mp hnum field hf
    simpa [hn] using hall
  have hstore := storeFields_eq (c.obj block.sid) (hp.sentFields a.blocks block.sid) fields hvalid
    (h.headers block.sid hin) (h.status block.sid hin)
  have hsent : ∀ sid, hp.sentFields (a.blocks ++ [block]) sid =
      hp.sentFields a.blocks sid ++ if block.sid = sid then fields else [] := by
    intro sid
    rw [Hpack.sentFields_snoc, ← h.dec, hdec]
    rfl
  have hstate : ∀ c' : Conn ε δ, c'.dec = (hp.decode c.dec block.fragment).1 → c'.hsid = none →
      c'.streams = c.streams → c'.nextId = c.nextId →
      (∀ sid, (c'.obj sid).headers = if sid = block.sid
        then plainFields (hp.sentFields a.blocks sid ++ fields) else (c.obj sid).headers) →
      (∀ sid, (c'.obj sid).status = if sid = block.sid
        then statusOf (hp.sentFields a.blocks sid ++ fields) else (c.obj sid).status) →
      InStep hp c' { pending := none, blocks := a.blocks ++ [block] } := by
    intro c' hd hi hs hn hh ht
    refine ⟨?_, nofun, fun _ => hi, ?_, ?_, ?_, ?_⟩
    · rw [hd, h.dec, Hpack.decodeAll_snoc]
    · rw [hs, hn]; exact h.ids
    · intro other ho
      rw [hn]
      rcases List.mem_append.mp ho with ho | ho
      · exact h.blockIds other ho
      · rw [List.mem_singleton.mp ho]; exact h.ids _ hin
    · intro sid hm
      rw [hh, hsent]
      by_cases he : sid = block.sid
      · simp [he]
      · simpa [he, Ne.symm he] using h.headers sid (hs ▸ hm)
    · intro sid hm
      rw [ht, hsent]
      by_cases he : sid = block.sid
      · simp [he]
      · simpa [he, Ne.symm he] using h.status sid (hs ▸ hm)
  have hf : c.hsid.filter (· ∈ c.streams) = some block.sid := by simp [hsid, hin]
  unfold Conn.finishHeaders
  simp only [hf, hbuf, hdec, hstore]
  refine ⟨trivial, hstate _ ?_ rfl ?_ ?_ ?_ ?_⟩
  all_goals cases c.hend <;> simp [Conn.resetBlock, Conn.finish, Conn.modify] <;> intro sid <;>
    by_cases he : sid = block.sid <;> simp [he]

theorem keepDispatch (h : InStep hp c a) (f : Frame) (hh : f.ftype ≠ .headers)
    (hc : f.ftype ≠ .continuation) : InStep hp (c.dispatch hp f).1 (a.receive f) := by
  have hr : a.receive f = a := by
    unfold Assembly.receive
    split <;> first | contradiction | rfl
  rw [hr]
  exact h.keep (.of_micros (by simp [hh, hc]) (Conn.Micros.dispatch hp c f))

-- A frame that ends a block decodes it; one that does not only collects it.
theorem offer {block : Block} (h : InStep hp c { a with pending := some block }) (f : Frame)
    (hin : f.endHeaders → block.sid ∈ c.streams)
    (hok : f.endHeaders → match (hp.decode c.dec block.fragment).2 with
      | .ok fields => numericStatus fields = true
      | .error _ => False) :
    InStep hp (if f.endHeaders then c.finishHeaders hp else (c, none)).1
      (a.offer block f.endHeaders) := by
  unfold Assembly.offer
  by_cases he : f.endHeaders
  · simp only [he, ↓reduceIte]
    have hm := hok he
    split at hm
    · rename_i fields hdec
      exact (h.finishHeaders (hin he) hdec hm).2
    · exact False.elim hm
  · simpa [he] using h

-- A continuation outside any block only touches the buffer, which is idle.
theorem strayContinuation (h : InStep hp c a) (hn : a.pending = none) (f : Frame) :
    InStep hp (c.onContinuation hp f).1 a := by
  have hs := h.idle hn
  have hbuf : ∀ c' : Conn ε δ, c'.dec = c.dec → c'.hsid = none → c'.streams = c.streams →
      c'.nextId = c.nextId → c'.obj = c.obj → InStep hp c' a := by
    intro c' hd hi ht hx ho
    exact ⟨hd.trans h.dec, fun block hb => (by simp [hn] at hb), fun _ => hi, by rw [ht, hx]; exact h.ids,
      by rw [hx]; exact h.blockIds, by rw [ht, ho]; exact h.headers, by rw [ht, ho]; exact h.status⟩
  unfold Conn.onContinuation
  dsimp only
  split
  · unfold Conn.finishHeaders
    simp only [hs, Option.filter_none]
    exact hbuf _ rfl rfl rfl rfl rfl
  · exact hbuf _ rfl hs rfl rfl rfl

theorem dispatch (h : InStep hp c a) (f : Frame) (hvalid : validBlock hp c (.frame f))
    (hheard : blockHeard c (.frame f)) : InStep hp (c.dispatch hp f).1 (a.receive f) := by
  simp only [validBlock, blockHeard, Bool.and_eq_true, Bool.not_eq_true', Bool.and_eq_false_imp,
    decide_eq_true_eq, Bool.or_eq_false_iff, Option.all_eq_true_iff_get, decide_eq_true_eq] at hvalid hheard
  obtain ⟨hplain, hheard⟩ := hheard
  cases ht : f.ftype with
  | headers =>
      have hfrag : fragment f = f.payload := by
        simp [fragment, unpadded, hplain ht]
      have hb : f.endHeaders → c.blockEnd f = some (f.sid, f.payload) := by
        intro he; simp [Conn.blockEnd, ht, he]
      have hd : c.dispatch hp f = c.onHeaders hp f := by unfold Conn.dispatch; rw [ht]
      have hr : a.receive f = a.offer ⟨f.sid, f.payload, f.endStream⟩ f.endHeaders := by
        unfold Assembly.receive; rw [ht, hfrag]
      rw [hd, hr]
      unfold Conn.onHeaders
      apply (h.begin ⟨f.sid, f.payload, f.endStream⟩).offer f
      · intro he
        simpa [hb he] using hheard
      · intro he
        simp only [hb he, Option.isSome_some, Option.get_some, forall_const] at hvalid
        split at hvalid <;> simp_all
  | continuation =>
      have hd : c.dispatch hp f = c.onContinuation hp f := by unfold Conn.dispatch; rw [ht]
      rw [hd]
      cases hp' : a.pending with
      | none =>
          have hr : a.receive f = a := by unfold Assembly.receive; rw [ht, hp']
          rw [hr]
          exact h.strayContinuation hp' f
      | some block =>
          obtain ⟨hsid, hbuf, hend⟩ := h.pending block hp'
          have hb : f.endHeaders → c.blockEnd f = some (block.sid, block.fragment ++ f.payload) := by
            intro he; simp [Conn.blockEnd, ht, he, hsid, hbuf]
          have hr : a.receive f =
              a.offer { block with fragment := block.fragment ++ f.payload } f.endHeaders := by
            unfold Assembly.receive; rw [ht, hp']
          have hc : { c with hbuf := c.hbuf ++ f.payload } = { c with
              hsid := some block.sid, hbuf := block.fragment ++ f.payload, hend := block.endStream } := by
            rw [← hsid, ← hbuf, ← hend]
          rw [hr]
          unfold Conn.onContinuation
          rw [hc]
          apply (h.begin { block with fragment := block.fragment ++ f.payload }).offer f
          · intro he
            simpa [hb he] using hheard
          · intro he
            simp only [hb he, Option.isSome_some, Option.get_some, forall_const] at hvalid
            split at hvalid <;> simp_all
  | _ => exact h.keepDispatch f (by simp [ht]) (by simp [ht])

theorem step (h : InStep hp c a) {e : Event} {c' : Conn ε δ} (hvalid : validBlock hp c e)
    (hheard : blockHeard c e) (hs : H2.step hp c e = some c') :
    InStep hp c' (a.observe e) := by
  cases step_happens hs with
  | frame f => exact h.dispatch f hvalid hheard
  | raised f exc => exact (h.dispatch f hvalid hheard).keep (.exitReader _ exc)
  | eof | stopped => exact h.keep (.exitReader c _)
  | idle | refused => exact h
  | acquire => exact h.keep (.of_obj rfl rfl rfl rfl rfl rfl (List.Subset.refl _))
  | send args => exact h.send args
  | rst sid => exact h.keep (.sendRst c sid)
  | pop sid => exact h.keep (.of_obj rfl rfl rfl rfl rfl rfl List.erase_subset)
  | close => exact h.keep (.close c)

end InStep

-- While every block finds its stream registered, unpadded and without
-- priority fields, the decoder has seen exactly the blocks the peer sent, and
-- every registered stream holds exactly the fields sent on it.
theorem decoder_in_step (hp : Hpack ε δ) (fate : Nat → Option Nat) (events : List Event)
    (c : Conn ε δ) (hvalid : Transition.Meets (step hp) (fun c e => validBlock hp c e)
      (Conn.init hp fate) events)
    (hheard : Transition.Meets (step hp) (fun c e => blockHeard c e) (Conn.init hp fate) events)
    (hrun : Transition.run (step hp) (Conn.init hp fate) events = some c) :
    c.dec = hp.decodeAll (assembled (framesOf events)).blocks ∧
      ∀ sid ∈ c.streams,
        (c.obj sid).headers = plainFields (hp.sentFields (assembled (framesOf events)).blocks sid) ∧
        (c.obj sid).status = statusOf (hp.sentFields (assembled (framesOf events)).blocks sid) := by
  have hin := Transition.simulation Assembly.observe (InStep hp)
    (fun c a e next h hok hs => h.step hok.1 hok.2 hs) (InStep.init hp fate) (hvalid.and hheard) hrun
  rw [assembled_framesOf]
  exact ⟨hin.dec, fun sid hs => ⟨hin.headers sid hs, hin.status sid hs⟩⟩

def answer (sid : Nat) (block : Bytes) : Frame :=
  ⟨.headers, F_END_HEADERS ||| F_END_STREAM, sid, block⟩

theorem decoder_in_step_two_streams :
    ∃ c, Transition.run (step recorder) (Conn.init recorder fun _ => none)
        [.send getRequest, .send getRequest, .frame (answer 3 [0x88]), .frame (answer 1 [0xbe])] = some c ∧
      c.dec = [[0x88], [0xbe]] :=
  ⟨_, rfl, (decoder_in_step recorder (fun _ => none)
    [.send getRequest, .send getRequest, .frame (answer 3 [0x88]), .frame (answer 1 [0xbe])] _
    (by decide) (by decide) rfl).1⟩

-- The block of a timed-out request is never decoded, and the next one is
-- decoded against the wrong table.
theorem popped_stream_desynchronises :
    ∃ events c, Transition.Meets (step recorder) (fun c e => validBlock recorder c e)
        (Conn.init recorder fun _ => none) events ∧
      Transition.run (step recorder) (Conn.init recorder fun _ => none) events = some c ∧
      c.dec ≠ recorder.decodeAll (assembled (framesOf events)).blocks :=
  ⟨[.send getRequest, .send getRequest, .rst 1, .pop 1, .frame (answer 1 [0x88]),
    .frame (answer 3 [0xbe])], _, by decide, rfl, by decide⟩

end NeverFox.H2
