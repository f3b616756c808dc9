import NeverFox.H2.Serving

namespace NeverFox.H2

variable {ε δ : Type}

-- What a server sends of a response: header blocks and data, in any order.
inductive Piece
  | block (fields : List Header)
  | data (payload : Bytes)
  deriving DecidableEq

def fieldsOf (pieces : List Piece) : List Header :=
  pieces.flatMap fun piece => match piece with
    | .block fields => fields
    | .data _ => []

def payloadsOf (pieces : List Piece) : List Bytes :=
  pieces.filterMap fun piece => match piece with
    | .block _ => none
    | .data payload => some payload

structure Reply where
  pieces : List Piece := []
  ended : Bool := false
  deriving DecidableEq

namespace Reply

def fields (r : Reply) : List Header := fieldsOf r.pieces

def chunks (r : Reply) : List Bytes := payloadsOf r.pieces

def add (r : Reply) (piece : Piece) (last : Bool) : Reply := ⟨r.pieces ++ [piece], last⟩

-- More data than the caller allows for, where zero allows for any.
def exceeds (cap : Nat) (r : Reply) : Prop := cap ≠ 0 ∧ cap < (r.chunks.map List.length).sum

-- The object of a stream that has received this much and no more.
def stream (sid cap : Nat) (r : Reply) : Stream where
  status := statusOf r.fields
  headers := plainFields r.fields
  chunks := r.chunks
  done := r.ended
  sid := sid
  nbytes := (r.chunks.map List.length).sum
  maxBytes := cap

end Reply

-- One final header block with a status, then the body, then nothing more.
structure Reply.Answers (r : Reply) (fields : List Header) : Prop where
  pieces : ∃ payloads : List Bytes, r.pieces = .block fields :: payloads.map .data
  status : (statusOf fields).isSome
  ended : r.ended = true

-- The server's side of the responses, with a decoder in step with its encoder.
structure Course (δ : Type) where
  dec : δ
  pending : Option Block := none
  reply : Nat → Reply := fun _ => {}

namespace Course

def add (s : Course δ) (sid : Nat) (piece : Piece) (last : Bool) : Course δ :=
  { s with reply := Function.update s.reply sid ((s.reply sid).add piece last) }

-- A block that is complete decodes, and the statuses in it are numbers.
def offer (hp : Hpack ε δ) (s : Course δ) (block : Block) (complete : Bool) : Option (Course δ) :=
  if complete then
    match hp.decode s.dec block.fragment with
    | (dec, .ok fields) =>
        if numericStatus fields then
          some ({ s with dec := dec, pending := none }.add block.sid (.block fields) block.endStream)
        else none
    | (_, .error _) => none
  else some { s with pending := some block }

-- A frame that keeps to the framing rules: a block is not interrupted, and
-- nothing comes on a stream that is ended.
def advance (hp : Hpack ε δ) (sids : List Nat) (s : Course δ) (f : Frame) : Option (Course δ) :=
  match s.pending, f.ftype with
  | none, .headers =>
      if f.sid ∈ sids ∧ (s.reply f.sid).ended = false ∧ f.has F_PADDED = false ∧
          f.has F_PRIORITY = false then
        s.offer hp ⟨f.sid, f.payload, f.endStream⟩ f.endHeaders
      else none
  | some block, .continuation =>
      if f.sid = block.sid then
        s.offer hp { block with fragment := block.fragment ++ f.payload } f.endHeaders
      else none
  | none, .data =>
      if f.sid ∈ sids ∧ (s.reply f.sid).ended = false ∧ f.has F_PADDED = false then
        some (s.add f.sid (.data f.payload) f.endStream)
      else none
  | none, .settings => if 6 ∣ f.payload.length then some s else none
  | none, .ping | none, .windowUpdate | none, .unknown _ => some s
  | _, _ => none

end Course

-- A frame that is no part of a response.
def Frame.aside (f : Frame) : Prop :=
  f.ftype = .settings ∧ 6 ∣ f.payload.length ∨ f.ftype = .ping ∨ f.ftype = .windowUpdate ∨
    ∃ code, f.ftype = .unknown code

-- Everything a legal frame can be.
inductive Advances (hp : Hpack ε δ) (sids : List Nat) (s : Course δ) (f : Frame) : Course δ → Prop
  | headers (s' : Course δ) (hidle : s.pending = none) (ht : f.ftype = .headers) (hmem : f.sid ∈ sids)
      (hopen : (s.reply f.sid).ended = false) (hpadded : f.has F_PADDED = false)
      (hpriority : f.has F_PRIORITY = false)
      (ho : s.offer hp ⟨f.sid, f.payload, f.endStream⟩ f.endHeaders = some s') : Advances hp sids s f s'
  | continuation (s' : Course δ) (block : Block) (hpending : s.pending = some block)
      (ht : f.ftype = .continuation) (hsid : f.sid = block.sid)
      (ho : s.offer hp { block with fragment := block.fragment ++ f.payload } f.endHeaders = some s') :
      Advances hp sids s f s'
  | data (hidle : s.pending = none) (ht : f.ftype = .data) (hmem : f.sid ∈ sids)
      (hopen : (s.reply f.sid).ended = false) (hpadded : f.has F_PADDED = false) :
      Advances hp sids s f (s.add f.sid (.data f.payload) f.endStream)
  | aside (hidle : s.pending = none) (ha : f.aside) : Advances hp sids s f s

theorem Course.advances {hp : Hpack ε δ} {sids : List Nat} {s s' : Course δ} {f : Frame}
    (hs : s.advance hp sids f = some s') : Advances hp sids s f s' := by
  unfold advance at hs
  split at hs
  · rename_i hidle ht
    obtain ⟨⟨hmem, hopen, hpadded, hpriority⟩, ho⟩ := Option.ite_none_right_eq_some.mp hs
    exact .headers s' hidle ht hmem hopen hpadded hpriority ho
  · rename_i block hpending ht
    obtain ⟨hsid, ho⟩ := Option.ite_none_right_eq_some.mp hs
    exact .continuation s' block hpending ht hsid ho
  · rename_i hidle ht
    obtain ⟨⟨hmem, hopen, hpadded⟩, ho⟩ := Option.ite_none_right_eq_some.mp hs
    obtain rfl := Option.some.inj ho
    exact .data hidle ht hmem hopen hpadded
  · rename_i hidle ht
    obtain ⟨hlen, ho⟩ := Option.ite_none_right_eq_some.mp hs
    obtain rfl := Option.some.inj ho
    exact .aside hidle (.inl ⟨ht, hlen⟩)
  all_goals cases hs
  all_goals
    rename_i hidle ht
    exact .aside hidle (by simp [Frame.aside, ht])

theorem Advances.advance {hp : Hpack ε δ} {sids : List Nat} {s s' : Course δ} {f : Frame}
    (h : Advances hp sids s f s') : s.advance hp sids f = some s' := by
  unfold Course.advance
  cases h with
  | headers _ hidle ht hmem hopen hpadded hpriority ho => simp [hidle, ht, hmem, hopen, hpadded, hpriority, ho]
  | continuation _ block hpending ht hsid ho => simp [hpending, ht, hsid, ho]
  | data hidle ht hmem hopen hpadded => simp [hidle, ht, hmem, hopen, hpadded]
  | aside hidle ha => rcases ha with ⟨ht, hlen⟩ | ht | ht | ⟨code, ht⟩ <;> simp [*]

-- The payloads of the DATA frames on a stream, in their order.
def payloadsOn (sid : Nat) (frames : List Frame) : List Bytes :=
  (frames.filter fun f => f.ftype = .data && f.sid = sid).map Frame.payload

-- Streams that are registered and have not heard anything yet, on a connection
-- whose reader is at work and whose writes go out.
structure Awaiting (c : Conn ε δ) (sids : List Nat) (cap : Nat → Nat) : Prop where
  reading : c.reading = true
  quiet : ∀ n, c.tp.fate n = none
  streams : ∀ sid ∈ sids, sid ∈ c.streams ∧ c.obj sid = { sid := sid, maxBytes := cap sid }

-- A stream has what the server has sent on it, or has failed for too much data.
def Held (sid cap : Nat) (st : Stream) (r : Reply) : Prop :=
  (¬r.exceeds cap ∧ st = r.stream sid cap) ∨
    (r.exceeds cap ∧ st.error = some (Conn.capError cap) ∧ st.done = true)

structure Tracks (sids : List Nat) (cap : Nat → Nat) (c : Conn ε δ) (s : Course δ) : Prop where
  reading : c.reading = true
  quiet : ∀ n, c.tp.fate n = none
  dec : c.dec = s.dec
  streams : ∀ sid ∈ sids, sid ∈ c.streams
  stream : ∀ sid ∈ sids, Held sid (cap sid) (c.obj sid) (s.reply sid)
  pending : ∀ block, s.pending = some block → block.sid ∈ sids ∧ (s.reply block.sid).ended = false ∧
    c.hsid = some block.sid ∧ c.hbuf = block.fragment ∧ c.hend = block.endStream

namespace Reply

variable (r : Reply)

theorem ended_add (piece : Piece) (last : Bool) : (r.add piece last).ended = last := rfl

theorem fields_block (fields : List Header) (last : Bool) :
    (r.add (.block fields) last).fields = r.fields ++ fields := by
  simp [Reply.fields, fieldsOf, add]

theorem fields_data (payload : Bytes) (last : Bool) : (r.add (.data payload) last).fields = r.fields := by
  simp [Reply.fields, fieldsOf, add]

theorem chunks_block (fields : List Header) (last : Bool) :
    (r.add (.block fields) last).chunks = r.chunks := by
  simp [Reply.chunks, payloadsOf, add]

theorem chunks_data (payload : Bytes) (last : Bool) :
    (r.add (.data payload) last).chunks = r.chunks ++ [payload] := by
  simp [Reply.chunks, payloadsOf, add]

theorem exceeds_block (cap : Nat) (fields : List Header) (last : Bool) :
    (r.add (.block fields) last).exceeds cap ↔ r.exceeds cap := by
  rw [exceeds, exceeds, chunks_block]

theorem exceeds_data (cap : Nat) (payload : Bytes) (last : Bool) :
    (r.add (.data payload) last).exceeds cap ↔
      cap ≠ 0 ∧ cap < (r.chunks.map List.length).sum + payload.length := by
  simp [exceeds, chunks_data]

end Reply

theorem Awaiting.tracks {c : Conn ε δ} {sids : List Nat} {cap : Nat → Nat} (h : Awaiting c sids cap) :
    Tracks sids cap c { dec := c.dec } where
  reading := h.reading
  quiet := h.quiet
  dec := rfl
  streams sid hs := (h.streams sid hs).1
  stream sid hs := .inl ⟨by simp [Reply.exceeds, Reply.chunks, payloadsOf], (h.streams sid hs).2⟩
  pending := by simp

-- A block that is read without an exception.
theorem finishHeaders_stored (hp : Hpack ε δ) {c : Conn ε δ} {sid : Nat} (hsid : c.hsid = some sid)
    (hin : sid ∈ c.streams) {dec : δ} {fields : List Header}
    (hdecode : hp.decode c.dec c.hbuf = (dec, .ok fields)) {st : Stream}
    (hstore : Conn.storeFields (c.obj sid) fields = (st, none)) :
    c.finishHeaders hp = (({ c with
      dec := dec
      obj := Function.update c.obj sid { st with done := st.done || c.hend } }).resetBlock, none) := by
  have hfilter : c.hsid.filter (· ∈ c.streams) = some sid := by simp [hsid, hin]
  unfold Conn.finishHeaders
  simp only [hfilter, hdecode, hstore]
  cases c.hend <;> simp [Conn.finish, Conn.modify, Conn.resetBlock]

namespace Held

variable {sid cap : Nat} {st : Stream} {r : Reply}

-- The stream stores a block, and is done if that was the last piece.
theorem block (h : Held sid cap st r) (hopen : r.ended = false) {fields : List Header}
    (hnumeric : numericStatus fields = true) (last : Bool) :
    ∃ stored, Conn.storeFields st fields = (stored, none) ∧
      Held sid cap { stored with done := stored.done || last } (r.add (.block fields) last) := by
  have hvalid : ∀ field ∈ fields, field.1 = ":status" →
      (PyText.intOfStr 10 field.2.toList).isSome := by
    intro field hf hn
    simpa [hn] using List.all_eq_true.mp hnumeric field hf
  rcases h with ⟨hwithin, rfl⟩ | ⟨hover, herror, hdone⟩
  · refine ⟨_, storeFields_eq _ r.fields fields hvalid rfl rfl, .inl ⟨?_, ?_⟩⟩
    · rwa [r.exceeds_block]
    · simp only [Reply.stream, r.fields_block, r.chunks_block, r.ended_add, hopen, Bool.false_or]
  · obtain ⟨status, headers, hst⟩ := Conn.storeFields_kept st fields
    refine ⟨_, Prod.ext rfl (storeFields_quiet st fields hnumeric), .inr ⟨?_, ?_, ?_⟩⟩
    · rwa [r.exceeds_block]
    · simpa only [hst] using herror
    · simp only [hst, hdone, Bool.true_or]

-- A stream that is not past its cap stores the data, and fails if it is then.
theorem data (h : Held sid cap st r) (hopen : r.ended = false) (payload : Bytes) (last : Bool) :
    (st.done = false ∧ st = r.stream sid cap ∧ ¬r.exceeds cap) ∨
      (st.done = true ∧ Held sid cap st (r.add (.data payload) last)) := by
  rcases h with ⟨hwithin, rfl⟩ | ⟨hover, herror, hdone⟩
  · exact .inl ⟨hopen, rfl, hwithin⟩
  · refine .inr ⟨hdone, .inr ⟨?_, herror, hdone⟩⟩
    rw [r.exceeds_data]
    exact ⟨hover.1, Nat.lt_of_lt_of_le hover.2 (Nat.le_add_right _ _)⟩

end Held

-- DATA past the cap fails its stream.
theorem onData_over {c : Conn ε δ} {f : Frame} (hfate : ∀ n, c.tp.fate n = none)
    (hheard : f.sid ∈ c.streams ∧ (c.obj f.sid).done = false)
    (hover : (c.obj f.sid).maxBytes ≠ 0 ∧
      (c.obj f.sid).maxBytes < (c.obj f.sid).nbytes + f.payload.length) :
    ((c.onData f).1.obj f.sid).error = some (Conn.capError (c.obj f.sid).maxBytes) ∧
      ((c.onData f).1.obj f.sid).done = true := by
  obtain ⟨c', hobj, he⟩ := Conn.onData_settles hfate hheard
  have hst : (c'.obj f.sid).maxBytes ≠ 0 ∧ (c'.obj f.sid).maxBytes < (c'.obj f.sid).nbytes := by
    rw [hobj]
    simpa [Conn.addChunk, Conn.modify] using hover
  rw [he]
  unfold Conn.settleData
  dsimp only
  rw [if_pos hst, hobj]
  simp [Conn.fail, Conn.modify, Conn.addChunk]

-- An exception finishes no stream by itself.
theorem finishHeaders_raised {hp : Hpack ε δ} {c : Conn ε δ} {exc : Exn}
    (h : (c.finishHeaders hp).2 = some exc) (sid : Nat) :
    ((c.finishHeaders hp).1.obj sid).done = (c.obj sid).done := by
  unfold Conn.finishHeaders at h ⊢
  split at h
  · cases h
  · rename_i owner hf
    dsimp only at h ⊢
    split at h
    · rfl
    · rename_i fields _
      split at h
      · obtain ⟨status, headers, hst⟩ := Conn.storeFields_kept (c.obj owner) fields
        by_cases hs : sid = owner
        · subst hs
          simp only [Conn.modify, Function.update_self, hst]
        · simp only [Conn.modify, Function.update_of_ne hs]
      · cases h

theorem dispatch_raised {hp : Hpack ε δ} {c : Conn ε δ} {f : Frame} {exc : Exn}
    (h : (c.dispatch hp f).2 = some exc) (sid : Nat) :
    ((c.dispatch hp f).1.obj sid).done = (c.obj sid).done := by
  unfold Conn.dispatch at h ⊢
  cases ht : f.ftype with
  | headers =>
      simp only [ht, Conn.onHeaders] at h ⊢
      split at h
      · rename_i he
        rw [if_pos he]
        exact finishHeaders_raised h sid
      · cases h
  | continuation =>
      simp only [ht, Conn.onContinuation] at h ⊢
      split at h
      · rename_i he
        rw [if_pos he]
        exact finishHeaders_raised h sid
      · cases h
  | data =>
      simp only [ht] at h ⊢
      rcases c.onData_cases f with ⟨_, he⟩ | ⟨_, ⟨_, he⟩ | ⟨_, _, he⟩ | ⟨_, he⟩⟩ <;> rw [he] at h ⊢
      · cases h
      · cases h
      · by_cases hs : sid = f.sid
        · subst hs
          simp [Conn.write, Conn.addChunk, Conn.modify]
        · simp [Conn.write, Conn.addChunk, Conn.modify, hs]
  | settings => simp only [Conn.onSettings_obj]
  | ping => simp only [Conn.onPing_obj]
  | goaway => simp [ht] at h
  | rst => simp [ht] at h
  | windowUpdate => rfl
  | unknown => rfl

theorem error_dispatch (hp : Hpack ε δ) (c : Conn ε δ) (f : Frame) (sid : Nat)
    (h : (c.obj sid).error.isSome) : ((c.dispatch hp f).1.obj sid).error.isSome := by
  have hmodify : ∀ (c : Conn ε δ) owner (g : Stream → Stream),
      (∀ st, st.error.isSome → (g st).error.isSome) → (c.obj sid).error.isSome →
      ((c.modify owner g).obj sid).error.isSome := by
    intro c owner g hg he
    by_cases hs : sid = owner
    · subst hs
      simpa [Conn.modify] using hg _ he
    · simpa [Conn.modify, hs] using he
  refine (Conn.Micros.dispatch hp c f).lift
    (r := fun c c' => (c.obj sid).error.isSome → (c'.obj sid).error.isSome) (fun _ => id)
    (fun _ _ _ h h' => h' ∘ h) ?_ h
  intro c c' hm
  cases hm with
  | store owner fields _ =>
      refine hmodify c owner _ fun st he => ?_
      obtain ⟨status, headers, hst⟩ := Conn.storeFields_kept st fields
      rwa [hst]
  | chunk g _ => exact hmodify c _ _ fun _ => id
  | finish owner => exact hmodify c _ _ fun _ => id
  | fail owner exc => exact hmodify c _ _ fun _ _ => rfl
  | _ => exact id

namespace Tracks

variable {hp : Hpack ε δ} {sids : List Nat} {cap : Nat → Nat} {c : Conn ε δ} {s s' : Course δ}

-- The frame that completes a block, and the one that does not.
theorem offer {block : Block} (h : Tracks sids cap c { s with pending := some block })
    {complete : Bool} (ho : s.offer hp block complete = some s') :
    (if complete then c.finishHeaders hp else (c, none)).2 = none ∧
      Tracks sids cap (if complete then c.finishHeaders hp else (c, none)).1 s' := by
  obtain ⟨hmem, hopen, hsid, hbuf, hend⟩ := h.pending block rfl
  unfold Course.offer at ho
  cases complete with
  | false =>
      simp only [Bool.false_eq_true, ↓reduceIte, Option.some.injEq] at ho ⊢
      exact ⟨trivial, ho ▸ h⟩
  | true =>
      simp only [↓reduceIte] at ho ⊢
      split at ho
      · rename_i dec fields hdecode
        obtain ⟨hnumeric, ho⟩ := Option.ite_none_right_eq_some.mp ho
        obtain rfl := Option.some.inj ho
        obtain ⟨stored, hstore, hheld⟩ := (h.stream _ hmem).block hopen hnumeric block.endStream
        rw [finishHeaders_stored hp hsid (h.streams _ hmem) (by rw [h.dec, hbuf]; exact hdecode) hstore]
        refine ⟨rfl, h.reading, h.quiet, rfl, h.streams, fun sid hs => ?_, by simp [Course.add]⟩
        by_cases he : sid = block.sid
        · subst he
          simpa [Conn.resetBlock, Course.add, hend] using hheld
        · simp only [Conn.resetBlock, Course.add, Function.update_of_ne he]
          exact h.stream sid hs
      · cases ho

-- A frame that leaves the header blocks alone.
theorem keep (h : Tracks sids cap c s) (hidle : s'.pending = none) {f : Frame} (hh : f.ftype ≠ .headers)
    (hc : f.ftype ≠ .continuation) (hdec : s'.dec = s.dec)
    (hstream : ∀ sid ∈ sids, Held sid (cap sid) ((c.dispatch hp f).1.obj sid) (s'.reply sid)) :
    Tracks sids cap (c.dispatch hp f).1 s' := by
  have hkept := Conn.kept_dispatch hp c f
  have hheaders := HeadersKept.of_micros (not_or.mpr ⟨hh, hc⟩) (Conn.Micros.dispatch hp c f)
  refine ⟨hkept.reading.trans h.reading, fun n => ?_, hheaders.dec.trans (h.dec.trans hdec.symm),
    fun sid hs => ?_, hstream, by simp [hidle]⟩
  · rw [hkept.fate]
    exact h.quiet n
  · rw [hkept.streams]
    exact h.streams sid hs

theorem aside (h : Tracks sids cap c s) (hidle : s.pending = none) {f : Frame} (ha : f.aside) :
    (c.dispatch hp f).2 = none ∧ Tracks sids cap (c.dispatch hp f).1 s := by
  have htype : f.ftype ≠ .headers ∧ f.ftype ≠ .continuation ∧ f.ftype ≠ .data ∧ f.ftype ≠ .rst ∧
      f.ftype ≠ .goaway ∧ (f.ftype = .settings → 6 ∣ f.payload.length) := by
    rcases ha with ⟨ht, hlen⟩ | ht | ht | ⟨code, ht⟩ <;> simp [*]
  obtain ⟨hh, hc, hd, hr, hg, hs⟩ := htype
  have hquiet : ∀ sid, (c.dispatch hp f).2 = none ∧ (c.dispatch hp f).1.obj sid = c.obj sid := fun sid =>
    Conn.dispatch_other hp h.quiet hh hc (fun ht => absurd ht hd) (fun ht => absurd ht hr)
      (fun ht => absurd ht hg) hs
  refine ⟨(hquiet 0).1, h.keep hidle hh hc rfl fun sid hs => ?_⟩
  rw [(hquiet sid).2]
  exact h.stream sid hs

theorem data (h : Tracks sids cap c s) (hidle : s.pending = none) {f : Frame} (ht : f.ftype = .data)
    (hmem : f.sid ∈ sids) (hopen : (s.reply f.sid).ended = false) :
    (c.dispatch hp f).2 = none ∧
      Tracks sids cap (c.dispatch hp f).1 (s.add f.sid (.data f.payload) f.endStream) := by
  have hdispatch : c.dispatch hp f = c.onData f := by
    unfold Conn.dispatch
    rw [ht]
  have hin := h.streams _ hmem
  have hh : f.ftype ≠ .headers := by simp [ht]
  have hc : f.ftype ≠ .continuation := by simp [ht]
  have hidle' : (s.add f.sid (.data f.payload) f.endStream).pending = none := hidle
  refine ⟨by rw [hdispatch]; exact Conn.onData_quiet h.quiet f, h.keep hidle' hh hc rfl fun sid hs => ?_⟩
  rw [hdispatch]
  by_cases he : sid = f.sid
  · subst he
    have hreply : (s.add f.sid (.data f.payload) f.endStream).reply f.sid =
        (s.reply f.sid).add (.data f.payload) f.endStream := Function.update_self ..
    rw [hreply]
    rcases (h.stream _ hmem).data hopen f.payload f.endStream with ⟨hdone, hst, hwithin⟩ | ⟨hdone, hheld⟩
    · by_cases hover : ((s.reply f.sid).add (.data f.payload) f.endStream).exceeds (cap f.sid)
      · have hfail := onData_over h.quiet ⟨hin, hdone⟩ (by rw [hst]; exact (Reply.exceeds_data ..).mp hover)
        rw [hst] at hfail
        exact .inr ⟨hover, hfail⟩
      · refine .inl ⟨hover, ?_⟩
        rw [Reply.exceeds_data] at hover
        rw [Conn.onData_heard h.quiet ⟨hin, hdone⟩ ?_, hst]
        · simp [Reply.stream, Reply.fields_data, Reply.chunks_data, Reply.ended_add]
        · rw [hst]
          simp only [Reply.stream]
          omega
    · have hunheard : (c.onData f).1 = c := by
        simp [Conn.onData, hdone]
      rw [hunheard]
      exact hheld
  · rw [Conn.onData_other c f he]
    simp only [Course.add, Function.update_of_ne he]
    exact h.stream sid hs

theorem step_quiet (h : Tracks sids cap c s) {f : Frame} (hw : f.onWire)
    (hd : (c.dispatch hp f).2 = none) : H2.step hp c (.frame f) = some (c.dispatch hp f).1 := by
  have hread : c.readFrame hp f = (c.dispatch hp f).1 := by
    rcases c.readFrame_cases hp f with ⟨_, he⟩ | ⟨exc, he, _⟩
    · exact he
    · rw [hd] at he
      cases he
  simp [H2.step, h.reading, hw, hread]

-- The connection follows every such frame, and no exception ends its reader.
theorem step (h : Tracks sids cap c s) {f : Frame} (hw : f.onWire) (hs : s.advance hp sids f = some s') :
    ∃ c', H2.step hp c (.frame f) = some c' ∧ Tracks sids cap c' s' := by
  suffices hd : (c.dispatch hp f).2 = none ∧ Tracks sids cap (c.dispatch hp f).1 s' from
    ⟨_, h.step_quiet hw hd.1, hd.2⟩
  cases Course.advances hs with
  | headers _ hidle ht hmem hopen hpadded hpriority ho =>
      have hbegun : Tracks sids cap { c with hsid := some f.sid, hbuf := f.payload, hend := f.endStream }
          { s with pending := some ⟨f.sid, f.payload, f.endStream⟩ } := by
        refine ⟨h.reading, h.quiet, h.dec, h.streams, h.stream, ?_⟩
        rintro _ ⟨⟩
        exact ⟨hmem, hopen, rfl, rfl, rfl⟩
      unfold Conn.dispatch
      rw [ht]
      exact hbegun.offer ho
  | continuation _ block hpending ht hsid ho =>
      obtain ⟨hmem, hopen, hhsid, hbuf, hend⟩ := h.pending block hpending
      have hmore : Tracks sids cap { c with hbuf := c.hbuf ++ f.payload }
          { s with pending := some { block with fragment := block.fragment ++ f.payload } } := by
        refine ⟨h.reading, h.quiet, h.dec, h.streams, h.stream, ?_⟩
        rintro _ ⟨⟩
        exact ⟨hmem, hopen, hhsid, by rw [hbuf], hend⟩
      unfold Conn.dispatch
      rw [ht]
      exact hmore.offer ho
  | data hidle ht hmem hopen hpadded => exact h.data hidle ht hmem hopen
  | aside hidle ha => exact h.aside hidle ha

-- Whatever ends the reader, a stream that is not ended by then has failed.
theorem cut (h : Tracks sids cap c s) {sid : Nat} (hmem : sid ∈ sids) (hopen : (s.reply sid).ended = false)
    {e : Event} {c' : Conn ε δ} (hs : H2.step hp c e = some c') (hend : c'.reading = false) :
    (c'.obj sid).error.isSome := by
  have hexit : ∀ (d : Conn ε δ) exc, sid ∈ d.streams → (d.obj sid).done = (c.obj sid).done →
      ((c.obj sid).error.isSome → (d.obj sid).error.isSome) →
      ((d.exitReader exc).obj sid).error.isSome := by
    intro d exc hin hdone herror
    simp only [Conn.exitReader, Conn.failAll, Conn.failItems_eq]
    split
    · rfl
    · rename_i hno
      refine herror ?_
      rcases h.stream sid hmem with ⟨_, hst⟩ | ⟨_, he, _⟩
      · rw [hst] at hdone
        exact absurd ⟨hin, trivial, hdone.trans hopen⟩ hno
      · simp [he]
  have hreading := h.reading
  cases step_happens hs with
  | raised f exc _ _ he =>
      have hkept := Conn.kept_dispatch hp c f
      exact hexit _ exc (hkept.streams ▸ h.streams sid hmem) (dispatch_raised he sid)
        (error_dispatch hp c f sid)
  | eof | stopped => exact hexit c _ (h.streams sid hmem) rfl id
  | frame f =>
      rw [(Conn.kept_dispatch hp c f).reading, hreading] at hend
      cases hend
  | send args =>
      rw [(Conn.sendKept_send hp c args).reading, hreading] at hend
      cases hend
  | rst other =>
      rw [(Conn.kept_sendRst c other).reading, hreading] at hend
      cases hend
  | close =>
      rcases c.close_cases with ⟨_, he⟩ | ⟨_, he⟩ | ⟨hr, he⟩
      · rw [he, hreading] at hend
        cases hend
      · rw [he] at hend
        simp [hreading] at hend
      · rw [hr] at hreading
        cases hreading
  | idle | refused | acquire | pop =>
      exact absurd hend (by simp [hreading, Conn.pop])

-- And every run of them.
theorem run (h : Awaiting c sids cap) {frames : List Frame} (hwire : ∀ f ∈ frames, f.onWire)
    (hcourse : Transition.run (Course.advance hp sids) { dec := c.dec } frames = some s) :
    ∃ c', Transition.run (H2.step hp) c (frames.map .frame) = some c' ∧ Tracks sids cap c' s :=
  Transition.forward Event.frame Frame.onWire (Tracks sids cap)
    (fun _ _ _ _ h hw hs => h.step hw hs) h.tracks hwire hcourse

end Tracks

theorem payloadsOn_snoc (sid : Nat) (frames : List Frame) (f : Frame) :
    payloadsOn sid (frames ++ [f]) =
      payloadsOn sid frames ++ if f.ftype = .data ∧ f.sid = sid then [f.payload] else [] := by
  unfold payloadsOn
  by_cases hf : f.ftype = .data ∧ f.sid = sid
  · simp [List.filter_append, hf]
  · simp [List.filter_append, hf]

namespace Course

variable {hp : Hpack ε δ} {sids : List Nat} {s s' : Course δ} {f : Frame}

theorem chunks_add (s : Course δ) (owner sid : Nat) (piece : Piece) (last : Bool) :
    ((s.add owner piece last).reply sid).chunks =
      if sid = owner then ((s.reply owner).add piece last).chunks else (s.reply sid).chunks := by
  by_cases he : sid = owner
  · subst he
    simp [add]
  · simp [add, he]

theorem chunks_offer {block : Block} {complete : Bool} (h : s.offer hp block complete = some s')
    (sid : Nat) : (s'.reply sid).chunks = (s.reply sid).chunks := by
  unfold offer at h
  split at h
  · split at h
    · obtain ⟨_, ho⟩ := Option.ite_none_right_eq_some.mp h
      obtain rfl := Option.some.inj ho
      rw [chunks_add, Reply.chunks_block]
      split
      · rename_i he
        rw [he]
      · rfl
    · cases h
  · obtain rfl := Option.some.inj h
    rfl

theorem chunks_advance (h : s.advance hp sids f = some s') (sid : Nat) :
    (s'.reply sid).chunks =
      (s.reply sid).chunks ++ if f.ftype = .data ∧ f.sid = sid then [f.payload] else [] := by
  cases advances h with
  | headers _ hidle ht hmem hopen hpadded hpriority ho => simp [chunks_offer ho, ht]
  | continuation _ block hpending ht hsid ho => simp [chunks_offer ho, ht]
  | data hidle ht hmem hopen hpadded =>
      rw [chunks_add, Reply.chunks_data]
      by_cases he : sid = f.sid
      · simp [he, ht]
      · simp [he, Ne.symm he]
  | aside hidle ha => rcases ha with ⟨ht, _⟩ | ht | ht | ⟨code, ht⟩ <;> simp [ht]

theorem chunks_run {dec : δ} {frames : List Frame}
    (hrun : Transition.run (advance hp sids) { dec := dec } frames = some s) (sid : Nat) :
    (s.reply sid).chunks = payloadsOn sid frames := by
  have hstart : (({ dec := dec } : Course δ).reply sid).chunks = payloadsOn sid [] := rfl
  have hsim := Transition.simulation (fun told f => told ++ [f])
    (fun (s : Course δ) told => (s.reply sid).chunks = payloadsOn sid told)
    (fun s told f next h (_ : True) hs => by rw [chunks_advance hs, h, payloadsOn_snoc])
    hstart (Transition.meets_true frames) hrun
  simpa [← List.flatMap_def] using hsim

end Course

-- However the frames of the responses are split and interleaved, every stream
-- is done without an error and has its own status, fields and data.
theorem responses_isolated (hp : Hpack ε δ) (sids : List Nat) (fields : Nat → List Header)
    (frames : List Frame) (c : Conn ε δ) (s : Course δ) (hawaiting : Awaiting c sids fun _ => 0)
    (hwire : ∀ f ∈ frames, f.onWire)
    (hlegal : Transition.run (Course.advance hp sids) { dec := c.dec } frames = some s)
    (hanswers : ∀ sid ∈ sids, (s.reply sid).Answers (fields sid)) :
    ∃ c', Transition.run (step hp) c (frames.map .frame) = some c' ∧ c'.reading = true ∧
      ∀ sid ∈ sids, (c'.obj sid).done = true ∧ ∃ status, statusOf (fields sid) = some status ∧
        Conn.outcome (c'.obj sid) =
          .ok ⟨some status, plainFields (fields sid), (payloadsOn sid frames).flatten⟩ := by
  obtain ⟨c', hrun, htracks⟩ := Tracks.run hawaiting hwire hlegal
  refine ⟨c', hrun, htracks.reading, fun sid hs => ?_⟩
  obtain ⟨⟨payloads, hpieces⟩, hstatus, hended⟩ := hanswers sid hs
  obtain ⟨status, hstatus⟩ := Option.isSome_iff_exists.mp hstatus
  have hchunks := Course.chunks_run hlegal sid
  have hfields : (s.reply sid).fields = fields sid := by
    simp [Reply.fields, fieldsOf, hpieces, List.flatMap_map]
  rcases htracks.stream sid hs with ⟨_, hst⟩ | ⟨hover, _⟩
  · rw [hst]
    refine ⟨hended, status, hstatus, ?_⟩
    simp [Conn.outcome, Reply.stream, hfields, hstatus, hchunks]
  · exact absurd rfl hover.1

-- A few entries of the static table, and a literal :status of three octets.
def staticFields : Bytes → Except Exn (List Header)
  | [] => .ok []
  | 0x08 :: 0x03 :: a :: b :: c :: rest =>
      (staticFields rest).map ((":status", String.ofList (PyText.latin1 [a, b, c])) :: ·)
  | octet :: rest =>
      if octet = 0x88 then (staticFields rest).map ((":status", "200") :: ·)
      else if octet = 0x8d then (staticFields rest).map ((":status", "404") :: ·)
      else if octet = 0x90 then (staticFields rest).map (("accept-encoding", "gzip, deflate") :: ·)
      else .error .hpackError

def staticCodec : Hpack Unit Unit where
  encoder := ()
  decoder := ()
  encode _ _ := ((), .ok [0x82, 0x84, 0x41, 0x81, 0x1f, 0x87])
  decode _ block := ((), staticFields block)

-- Two responses, one with its block in two frames and one without any data.
def twoResponses : List Frame :=
  [⟨.settings, 0, 0, []⟩, ⟨.headers, 0, 3, [0x88]⟩, ⟨.continuation, F_END_HEADERS, 3, [0x90]⟩,
    ⟨.data, 0, 3, [104]⟩, ⟨.headers, F_END_HEADERS, 1, [0x8d]⟩, ⟨.unknown 33, 0, 3, [1, 2]⟩,
    ⟨.ping, 0, 0, [0, 1, 2, 3, 4, 5, 6, 7]⟩, ⟨.data, F_END_STREAM, 3, [105]⟩,
    ⟨.windowUpdate, 0, 1, [0, 0, 1, 0]⟩, ⟨.data, F_END_STREAM, 1, []⟩]

def twoSent : Conn Unit Unit :=
  (((Conn.init staticCodec fun _ => none).send staticCodec getRequest).1.send staticCodec getRequest).1

theorem awaiting_twoSent : Awaiting twoSent [1, 3] fun _ => 0 := by
  refine ⟨rfl, fun _ => rfl, ?_⟩
  simp only [List.forall_mem_cons]
  exact ⟨⟨by decide, rfl⟩, ⟨by decide, rfl⟩, by simp⟩

theorem responses_isolated_two :
    ∃ c, Transition.run (step staticCodec) twoSent (twoResponses.map .frame) = some c ∧
      Conn.outcome (c.obj 1) = .ok ⟨some 404, [], []⟩ ∧
      Conn.outcome (c.obj 3) = .ok ⟨some 200, [("accept-encoding", "gzip, deflate")], [104, 105]⟩ := by
  obtain ⟨s, hlegal, hfirst, hsecond⟩ : ∃ s, Transition.run (Course.advance staticCodec [1, 3])
      { dec := twoSent.dec } twoResponses = some s ∧
      s.reply 1 = ⟨[.block [(":status", "404")], .data []], true⟩ ∧
      s.reply 3 = ⟨[.block [(":status", "200"), ("accept-encoding", "gzip, deflate")],
        .data [104], .data [105]], true⟩ :=
    ⟨_, rfl, by decide, by decide⟩
  have hanswers : ∀ sid ∈ [1, 3], (s.reply sid).Answers (if sid = 1 then [(":status", "404")] else
      [(":status", "200"), ("accept-encoding", "gzip, deflate")]) := by
    simp only [List.forall_mem_cons]
    refine ⟨?_, ?_, by simp⟩
    · rw [hfirst]
      exact ⟨⟨[[]], rfl⟩, by decide, rfl⟩
    · rw [hsecond]
      exact ⟨⟨[[104], [105]], rfl⟩, by decide, rfl⟩
  obtain ⟨c, hrun, _, hall⟩ := responses_isolated staticCodec [1, 3] _ twoResponses twoSent s
    awaiting_twoSent (by decide) hlegal hanswers
  refine ⟨c, hrun, ?_, ?_⟩
  · obtain ⟨_, status, hstatus, hout⟩ := hall 1 (by decide)
    rw [hout, ← hstatus]
    decide
  · obtain ⟨_, status, hstatus, hout⟩ := hall 3 (by decide)
    rw [hout, ← hstatus]
    decide

end NeverFox.H2
