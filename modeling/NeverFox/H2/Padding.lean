import NeverFox.H2.Responses

namespace NeverFox.H2

variable {ε δ : Type}

-- A frame with padding or priority fields, where its type allows for them.
def Frame.flagged (f : Frame) : Bool :=
  f.ftype = .headers && (f.has F_PADDED || f.has F_PRIORITY) || f.ftype = .data && f.has F_PADDED

-- The padding fits behind its length, and the priority fields are all there.
def Frame.wellPadded (f : Frame) : Prop :=
  (f.has F_PADDED → ∃ pad rest, f.payload = pad :: rest ∧ pad.toNat ≤ rest.length) ∧
    (f.has F_PRIORITY → f.ftype = .headers → 5 ≤ (unpadded f).length)

-- The same frame with padding and priority removed.
def Frame.strip (f : Frame) : Frame :=
  if f.flagged then
    { f with
      flags := (if f.endStream then F_END_STREAM else 0) ||| if f.endHeaders then F_END_HEADERS else 0
      payload := if f.ftype = .headers then fragment f else unpadded f }
  else f

namespace Conn

-- The block that a frame has the decoder read.
def given (c : Conn ε δ) (f : Frame) : List Bytes :=
  match c.blockEnd f with
  | some (owner, block) => if owner ∈ c.streams then [block] else []
  | none => []

-- Read one frame, or none if the reader has ended, and note the block given.
def readNext (hp : Hpack ε δ) (r : Conn ε δ × List Bytes) (f : Frame) : Conn ε δ × List Bytes :=
  match step hp r.1 (.frame f) with
  | some c => (c, r.2 ++ r.1.given f)
  | none => r

def read (hp : Hpack ε δ) (c : Conn ε δ) (frames : List Frame) : Conn ε δ × List Bytes :=
  frames.foldl (readNext hp) (c, [])

end Conn

-- The server has sent more data on a stream than its caller allows for.
def past (cap : Nat → Nat) (frames : List Frame) (sid : Nat) : Prop :=
  cap sid ≠ 0 ∧ cap sid < (bodySent sid frames).length

-- The decoder was given the header block fragments only, and what is delivered
-- on the streams is the data without padding.
structure Depadded (sids : List Nat) (cap : Nat → Nat) (frames : List Frame)
    (r : Conn ε δ × List Bytes) : Prop where
  blocks : r.2 = (assembled frames).blocks.map Block.fragment
  bodies : ∀ sid ∈ sids, ¬past cap frames sid →
    (r.1.obj sid).error = none ∧ (r.1.obj sid).chunks.flatten = bodySent sid frames

namespace Frame

variable (f : Frame)

theorem strip_plain {f : Frame} (h : f.flagged = false) : f.strip = f := by simp [strip, h]

theorem strip_ftype : f.strip.ftype = f.ftype := by
  unfold strip
  split <;> rfl

theorem strip_sid : f.strip.sid = f.sid := by
  unfold strip
  split <;> rfl

theorem strip_flags (endStream endHeaders : Bool) :
    (((if endStream then F_END_STREAM else 0) ||| if endHeaders then F_END_HEADERS else 0) &&&
      F_END_STREAM != 0) = endStream ∧
    (((if endStream then F_END_STREAM else 0) ||| if endHeaders then F_END_HEADERS else 0) &&&
      F_END_HEADERS != 0) = endHeaders ∧
    (((if endStream then F_END_STREAM else 0) ||| if endHeaders then F_END_HEADERS else 0) &&&
      F_PADDED != 0) = false ∧
    (((if endStream then F_END_STREAM else 0) ||| if endHeaders then F_END_HEADERS else 0) &&&
      F_PRIORITY != 0) = false := by
  cases endStream <;> cases endHeaders <;> decide

theorem strip_endStream : f.strip.endStream = f.endStream := by
  unfold strip
  split
  · exact (strip_flags f.endStream f.endHeaders).1
  · rfl

theorem strip_endHeaders : f.strip.endHeaders = f.endHeaders := by
  unfold strip
  split
  · exact (strip_flags f.endStream f.endHeaders).2.1
  · rfl

theorem strip_headers {f : Frame} (ht : f.ftype = .headers) : f.strip.payload = fragment f := by
  by_cases hf : f.flagged = true
  · simp [strip, hf, ht]
  · rw [strip_plain (by simpa using hf)]
    simp only [flagged, ht, decide_true, Bool.true_and, reduceCtorEq, decide_false, Bool.false_and,
      Bool.or_false, Bool.or_eq_true, not_or, Bool.not_eq_true] at hf
    simp [fragment, unpadded, hf]

theorem strip_data {f : Frame} (ht : f.ftype = .data) : f.strip.payload = unpadded f := by
  by_cases hf : f.flagged = true
  · simp [strip, hf, ht]
  · rw [strip_plain (by simpa using hf)]
    simp only [flagged, ht, decide_true, Bool.true_and, reduceCtorEq, decide_false, Bool.false_and,
      Bool.false_or, Bool.not_eq_true] at hf
    simp [unpadded, hf]

theorem flagged_other {f : Frame} (hh : f.ftype ≠ .headers) (hd : f.ftype ≠ .data) : f.flagged = false := by
  simp [flagged, hh, hd]

-- Removing anything makes the payload shorter.
theorem unpadded_le (f : Frame) : (unpadded f).length ≤ f.payload.length := by
  unfold unpadded
  split
  · split
    · simp
    · rename_i pad rest hp
      rw [hp, List.length_take, List.length_cons]
      omega
  · exact Nat.le_refl _

theorem unpadded_lt {f : Frame} (hwell : f.wellPadded) (hf : f.has F_PADDED = true) :
    (unpadded f).length < f.payload.length := by
  obtain ⟨pad, rest, hp, _⟩ := hwell.1 hf
  unfold unpadded
  rw [if_pos hf, hp]
  simp only [List.length_take, List.length_cons]
  omega

theorem fragment_le (f : Frame) : (fragment f).length ≤ f.payload.length := by
  have hle := unpadded_le f
  unfold fragment
  split
  · rw [List.length_drop]
    omega
  · exact hle

theorem strip_onWire {f : Frame} (h : f.onWire) : f.strip.onWire := by
  refine ⟨Nat.lt_of_le_of_lt ?_ h.1, f.strip_sid ▸ h.2⟩
  unfold strip
  split
  · dsimp only
    split
    · exact fragment_le f
    · exact unpadded_le f
  · exact Nat.le_refl _

theorem fragment_lt {f : Frame} (hwell : f.wellPadded) (ht : f.ftype = .headers) (hf : f.flagged = true) :
    (fragment f).length < f.payload.length := by
  have hle := unpadded_le f
  unfold fragment
  by_cases hpriority : f.has F_PRIORITY = true
  · have hfive := hwell.2 hpriority ht
    rw [if_pos hpriority, List.length_drop]
    omega
  · rw [if_neg hpriority]
    refine unpadded_lt hwell ?_
    simpa [flagged, ht, hpriority] using hf

end Frame

-- Two courses that are the same but for the data.
structure Alike (t s : Course δ) : Prop where
  dec : t.dec = s.dec
  pending : t.pending = s.pending
  ended : ∀ sid, (t.reply sid).ended = (s.reply sid).ended
  fields : ∀ sid, (t.reply sid).fields = (s.reply sid).fields

namespace Alike

variable {hp : Hpack ε δ} {sids : List Nat} {t s s' : Course δ}

theorem block (h : Alike t s) (sid : Nat) (fields : List Header) (last : Bool) :
    Alike (t.add sid (.block fields) last) (s.add sid (.block fields) last) := by
  refine ⟨h.dec, h.pending, fun other => ?_, fun other => ?_⟩
  · by_cases he : other = sid
    · simp [Course.add, he, Reply.ended_add]
    · simpa [Course.add, he] using h.ended other
  · by_cases he : other = sid
    · simp [Course.add, he, Reply.fields_block, h.fields sid]
    · simpa [Course.add, he] using h.fields other

theorem data (h : Alike t s) (sid : Nat) (payload payload' : Bytes) (last : Bool) :
    Alike (t.add sid (.data payload) last) (s.add sid (.data payload') last) := by
  refine ⟨h.dec, h.pending, fun other => ?_, fun other => ?_⟩
  · by_cases he : other = sid
    · simp [Course.add, he, Reply.ended_add]
    · simpa [Course.add, he] using h.ended other
  · by_cases he : other = sid
    · simp [Course.add, he, Reply.fields_data, h.fields sid]
    · simpa [Course.add, he] using h.fields other

theorem offer (h : Alike t s) {block : Block} {complete : Bool} (ho : s.offer hp block complete = some s') :
    ∃ t', t.offer hp block complete = some t' ∧ Alike t' s' := by
  unfold Course.offer at ho ⊢
  rw [h.dec]
  split at ho
  · rename_i hc
    rw [if_pos hc]
    split at ho
    · rename_i dec fields hdecode
      obtain ⟨hnumeric, ho⟩ := Option.ite_none_right_eq_some.mp ho
      obtain rfl := Option.some.inj ho
      simp only [hnumeric, ↓reduceIte]
      have hready : Alike { t with dec := dec, pending := none } { s with dec := dec, pending := none } :=
        ⟨rfl, rfl, h.ended, h.fields⟩
      exact ⟨_, rfl, hready.block _ _ _⟩
    · cases ho
  · rename_i hc
    obtain rfl := Option.some.inj ho
    rw [if_neg hc]
    exact ⟨_, rfl, rfl, rfl, h.ended, h.fields⟩

theorem advance (h : Alike t s) {f : Frame} (hs : s.advance hp sids f = some s') :
    ∃ t', t.advance hp sids f = some t' ∧ Alike t' s' := by
  suffices hsuff : ∃ t', Advances hp sids t f t' ∧ Alike t' s' by
    obtain ⟨t', ha, halike⟩ := hsuff
    exact ⟨t', ha.advance, halike⟩
  cases Course.advances hs with
  | headers _ hidle ht hmem hopen hpadded hpriority ho =>
      obtain ⟨t', ho', halike⟩ := h.offer ho
      exact ⟨t', .headers t' (h.pending.trans hidle) ht hmem ((h.ended _).trans hopen) hpadded hpriority ho',
        halike⟩
  | continuation _ block hpending ht hsid ho =>
      obtain ⟨t', ho', halike⟩ := h.offer ho
      exact ⟨t', .continuation t' block (h.pending.trans hpending) ht hsid ho', halike⟩
  | data hidle ht hmem hopen hpadded =>
      exact ⟨_, .data (h.pending.trans hidle) ht hmem ((h.ended _).trans hopen) hpadded, h.data _ _ _ _⟩
  | aside hidle ha => exact ⟨t, .aside (h.pending.trans hidle) ha, h⟩

end Alike

section Legal

variable {hp : Hpack ε δ} {sids : List Nat} {s s' : Course δ} {f : Frame}

-- What a legal frame is by its type, or by the block before it.
theorem advance_headers (hs : s.advance hp sids f = some s') (ht : f.ftype = .headers) :
    s.pending = none ∧ f.sid ∈ sids ∧
      s.offer hp ⟨f.sid, f.payload, f.endStream⟩ f.endHeaders = some s' := by
  cases Course.advances hs with
  | headers _ hidle _ hmem _ _ _ ho => exact ⟨hidle, hmem, ho⟩
  | continuation _ _ _ hno => simp [hno] at ht
  | data _ hno => simp [hno] at ht
  | aside _ ha => simp [Frame.aside, ht] at ha

theorem advance_data (hs : s.advance hp sids f = some s') (ht : f.ftype = .data) :
    s.pending = none ∧ f.sid ∈ sids ∧ (s.reply f.sid).ended = false ∧
      s' = s.add f.sid (.data f.payload) f.endStream := by
  cases Course.advances hs with
  | headers _ _ hno => simp [hno] at ht
  | continuation _ _ _ hno => simp [hno] at ht
  | data hidle _ hmem hopen _ => exact ⟨hidle, hmem, hopen, rfl⟩
  | aside _ ha => simp [Frame.aside, ht] at ha

theorem advance_pending {block : Block} (hs : s.advance hp sids f = some s')
    (hpending : s.pending = some block) : f.ftype = .continuation ∧
      s.offer hp { block with fragment := block.fragment ++ f.payload } f.endHeaders = some s' := by
  cases Course.advances hs with
  | headers _ hidle => simp [hidle] at hpending
  | continuation _ block' hblock ht _ ho =>
      obtain rfl := Option.some.inj (hblock.symm.trans hpending)
      exact ⟨ht, ho⟩
  | data hidle => simp [hidle] at hpending
  | aside hidle => simp [hidle] at hpending

end Legal

-- The server's course is that of its frames without padding.
theorem pending_receive {hp : Hpack ε δ} {sids : List Nat} {s s' : Course δ} {a : Assembly} {f : Frame}
    (h : a.pending = s.pending) (hs : s.advance hp sids f.strip = some s') :
    (a.receive f).pending = s'.pending := by
  have hoffer : ∀ block complete, s.offer hp block complete = some s' →
      (a.offer block complete).pending = s'.pending := by
    intro block complete ho
    unfold Course.offer at ho
    unfold Assembly.offer
    split at ho
    · rename_i hc
      rw [if_pos hc]
      split at ho
      · obtain ⟨_, ho⟩ := Option.ite_none_right_eq_some.mp ho
        obtain rfl := Option.some.inj ho
        rfl
      · cases ho
    · rename_i hc
      obtain rfl := Option.some.inj ho
      rw [if_neg hc]
  unfold Assembly.receive
  rw [h]
  cases Course.advances hs with
  | headers _ hidle ht hmem hopen hpadded hpriority ho =>
      rw [f.strip_ftype] at ht
      rw [f.strip_sid, Frame.strip_headers ht, f.strip_endStream, f.strip_endHeaders] at ho
      simp only [ht]
      exact hoffer _ _ ho
  | continuation _ block hpending ht hsid ho =>
      rw [f.strip_ftype] at ht
      rw [Frame.strip_plain (Frame.flagged_other (by simp [ht]) (by simp [ht]))] at ho
      simp only [ht, hpending]
      exact hoffer _ _ ho
  | data hidle ht hmem hopen hpadded =>
      rw [f.strip_ftype] at ht
      simp only [ht, h]
      rfl
  | aside hidle ha =>
      rcases ha with ⟨ht, hlen⟩ | ht | ht | ⟨code, ht⟩ <;> rw [f.strip_ftype] at ht <;> simp only [ht, h]

-- What the decoder is given of a plain frame.
theorem given_plain {hp : Hpack ε δ} {sids : List Nat} {cap : Nat → Nat} {c : Conn ε δ} {t t' : Course δ}
    {a : Assembly} {f : Frame} (h : Tracks sids cap c t) (hpending : a.pending = t.pending)
    (hf : f.flagged = false) (hs : t.advance hp sids f = some t') :
    c.given f = (a.completes f).toList.map Block.fragment := by
  unfold Conn.given Conn.blockEnd Assembly.completes
  cases Course.advances hs with
  | headers _ hidle ht hmem hopen hpadded hpriority ho =>
      have hin := h.streams _ hmem
      have hfragment : fragment f = f.payload := by
        rw [← Frame.strip_headers ht, Frame.strip_plain hf]
      by_cases he : f.endHeaders = true
      · simp [ht, he, hin, hfragment]
      · simp [ht, he]
  | continuation _ block hb ht hs ho =>
      obtain ⟨hmem, _, hsid, hbuf, _⟩ := h.pending block hb
      have hin := h.streams _ hmem
      by_cases he : f.endHeaders = true
      · simp [ht, he, hsid, hin, hbuf, hpending, hb]
      · simp [ht, he]
  | data hidle ht hmem hopen hpadded => simp [ht]
  | aside hidle ha => rcases ha with ⟨ht, hlen⟩ | ht | ht | ⟨code, ht⟩ <;> simp [ht]

-- Until a flagged HEADERS frame comes, the connection follows the server but
-- for the data, which it takes as it comes.
structure Sound (sids : List Nat) (cap : Nat → Nat) (r : Conn ε δ × List Bytes) (told : List Frame)
    (s : Course δ) : Prop where
  raw : ∃ t, Tracks sids cap r.1 t ∧ Alike t s ∧ ∀ sid, (t.reply sid).chunks = payloadsOn sid told
  pending : (assembled told).pending = s.pending
  given : r.2 = (assembled told).blocks.map Block.fragment
  plain : ∀ f ∈ told, f.ftype = .headers → f.flagged = false
  known : ∀ f ∈ told, f.ftype = .data → f.sid ∈ sids

-- Then it collects a block that is too long,
structure Spoiled (r : Conn ε δ × List Bytes) (told : List Frame) (s : Course δ) : Prop where
  reading : r.1.reading = true
  given : r.2 = (assembled told).blocks.map Block.fragment
  pending : ∃ block, s.pending = some block ∧ (assembled told).pending = some block ∧
    r.1.hsid = some block.sid ∧ block.sid ∈ r.1.streams ∧ block.fragment.length < r.1.hbuf.length
  flagged : ∃ f ∈ told, f.ftype = .headers ∧ f.flagged = true

-- and has the decoder read it.
structure Lost (r : Conn ε δ × List Bytes) (told : List Frame) : Prop where
  given : ∃ (i : Nat) (x y : Bytes), r.2[i]? = some x ∧
    ((assembled told).blocks.map Block.fragment)[i]? = some y ∧ x ≠ y
  flagged : ∃ f ∈ told, f.ftype = .headers ∧ f.flagged = true

section Phases

variable {hp : Hpack ε δ} {sids : List Nat} {cap : Nat → Nat} {r : Conn ε δ × List Bytes}
  {told : List Frame} {s s' : Course δ} {f : Frame}

theorem fragments_snoc (told : List Frame) (f : Frame) :
    (assembled (told ++ [f])).blocks.map Block.fragment =
      (assembled told).blocks.map Block.fragment ++
        ((assembled told).completes f).toList.map Block.fragment := by
  rw [assembled_snoc, Assembly.blocks_receive, List.map_append]

theorem readNext_eq {c : Conn ε δ} (hs : step hp r.1 (.frame f) = some c) :
    Conn.readNext hp r f = (c, r.2 ++ r.1.given f) := by
  simp [Conn.readNext, hs]

-- A frame can be read while the reader is at work.
theorem exists_step (hp : Hpack ε δ) (hreading : r.1.reading = true) (hw : f.onWire) :
    ∃ c, step hp r.1 (.frame f) = some c := by
  simp [step, hreading, hw]

theorem Lost.next (h : Lost r told) : Lost (Conn.readNext hp r f) (told ++ [f]) := by
  obtain ⟨⟨i, x, y, hx, hy, hne⟩, g, hg, hflag⟩ := h
  refine ⟨⟨i, x, y, ?_, ?_, hne⟩, g, List.mem_append_left _ hg, hflag⟩
  · unfold Conn.readNext
    split
    · rw [List.getElem?_append_left (List.getElem?_eq_some_iff.mp hx).1]
      exact hx
    · exact hx
  · rw [fragments_snoc, List.getElem?_append_left (List.getElem?_eq_some_iff.mp hy).1]
    exact hy

-- A block too long does not get better.
theorem lost_of_given {c : Conn ε δ} {x y : Bytes}
    (hgiven : r.2 = (assembled told).blocks.map Block.fragment) (hs : step hp r.1 (.frame f) = some c)
    (hx : r.1.given f = [x]) (hy : ((assembled told).completes f).toList.map Block.fragment = [y])
    (hlen : y.length < x.length) (hflag : ∃ g ∈ told ++ [f], g.ftype = .headers ∧ g.flagged = true) :
    Lost (Conn.readNext hp r f) (told ++ [f]) := by
  refine ⟨⟨r.2.length, x, y, ?_, ?_, ?_⟩, hflag⟩
  · rw [readNext_eq hs, hx]
    simp
  · rw [fragments_snoc, hy, ← hgiven]
    simp
  · rintro rfl
    exact absurd hlen (Nat.lt_irrefl _)

theorem Spoiled.next (h : Spoiled r told s) (hw : f.onWire) (hs : s.advance hp sids f.strip = some s') :
    Spoiled (Conn.readNext hp r f) (told ++ [f]) s' ∨ Lost (Conn.readNext hp r f) (told ++ [f]) := by
  obtain ⟨block, hpending, hassembled, hsid, hin, hlen⟩ := h.pending
  obtain ⟨g, hg, hflag⟩ := h.flagged
  have hflagged : ∃ g ∈ told ++ [f], g.ftype = .headers ∧ g.flagged = true :=
    ⟨g, List.mem_append_left _ hg, hflag⟩
  obtain ⟨c, hstep⟩ := exists_step hp h.reading hw
  have hnext := pending_receive (hassembled.trans hpending.symm) hs
  -- only a continuation may come now
  obtain ⟨ht, ho⟩ := advance_pending hs hpending
  rw [f.strip_ftype] at ht
  rw [Frame.strip_plain (Frame.flagged_other (by simp [ht]) (by simp [ht]))] at ho
  by_cases he : f.endHeaders = true
  · right
    refine lost_of_given (x := r.1.hbuf ++ f.payload) (y := block.fragment ++ f.payload) h.given hstep
      ?_ ?_ ?_ hflagged
    · simp [Conn.given, Conn.blockEnd, ht, he, hsid, hin]
    · simp [Assembly.completes, ht, he, hassembled]
    · simp only [List.length_append]
      omega
  · left
    have hread : step hp r.1 (.frame f) = some { r.1 with hbuf := r.1.hbuf ++ f.payload } := by
      simp [step, h.reading, hw, Conn.readFrame, Conn.dispatch, ht, Conn.onContinuation, he]
    have hnone : r.1.given f = [] := by simp [Conn.given, Conn.blockEnd, ht, he]
    simp only [Course.offer, he, Bool.false_eq_true, ↓reduceIte, Option.some.injEq] at ho
    subst ho
    rw [readNext_eq hread, hnone, List.append_nil]
    refine ⟨h.reading, ?_, ⟨_, rfl, ?_, hsid, hin, ?_⟩, hflagged⟩
    · rw [fragments_snoc, h.given]
      simp [Assembly.completes, ht, he]
    · rw [assembled_snoc]
      exact hnext
    · simp only [List.length_append]
      omega

-- What the code takes a frame for that is no flagged HEADERS frame.
theorem taken {c : Conn ε δ} {t : Course δ} (htracks : Tracks sids cap c t) (halike : Alike t s)
    {a : Assembly} (hpending : a.pending = t.pending) (hw : f.onWire)
    (hplain : f.ftype = .headers → f.flagged = false) (hs : s.advance hp sids f.strip = some s') :
    ∃ c' t', step hp c (.frame f) = some c' ∧ Tracks sids cap c' t' ∧ Alike t' s' ∧
      (∀ sid, (t'.reply sid).chunks =
        (t.reply sid).chunks ++ if f.ftype = .data ∧ f.sid = sid then [f.payload] else []) ∧
      c.given f = (a.completes f).toList.map Block.fragment := by
  by_cases hf : f.flagged = true
  · -- a padded DATA frame passes for one with more data
    have ht : f.ftype = .data := by
      by_contra hd
      have hh : f.ftype ≠ .headers := fun hh => by simp [hplain hh] at hf
      simp [Frame.flagged_other hh hd] at hf
    obtain ⟨hidle, hmem, hopen, rfl⟩ := advance_data hs (f.strip_ftype.trans ht)
    rw [f.strip_sid] at hmem hopen
    rw [f.strip_sid, f.strip_endStream]
    obtain ⟨hquiet, htracks'⟩ : (c.dispatch hp f).2 = none ∧
        Tracks sids cap (c.dispatch hp f).1 (t.add f.sid (.data f.payload) f.endStream) :=
      htracks.data (halike.pending.trans hidle) ht hmem ((halike.ended _).trans hopen)
    refine ⟨_, _, htracks.step_quiet hw hquiet, htracks', halike.data _ _ _ _, fun sid => ?_, ?_⟩
    · rw [Course.chunks_add, Reply.chunks_data]
      by_cases he : sid = f.sid
      · simp [he, ht]
      · simp [he, Ne.symm he]
    · simp [Conn.given, Conn.blockEnd, Assembly.completes, ht]
  · have hno : f.flagged = false := by simpa using hf
    rw [Frame.strip_plain hno] at hs
    obtain ⟨t', ht', halike'⟩ := halike.advance hs
    obtain ⟨c', hstep, htracks'⟩ := htracks.step hw ht'
    exact ⟨c', t', hstep, htracks', halike', Course.chunks_advance ht',
      given_plain htracks hpending hno ht'⟩

theorem Sound.plainNext (h : Sound sids cap r told s) (hw : f.onWire)
    (hplain : f.ftype = .headers → f.flagged = false) (hs : s.advance hp sids f.strip = some s') :
    Sound sids cap (Conn.readNext hp r f) (told ++ [f]) s' := by
  obtain ⟨t, htracks, halike, hchunks⟩ := h.raw
  have hnext := pending_receive h.pending hs
  have hknown : f.ftype = .data → f.sid ∈ sids := fun ht => by
    rw [← f.strip_sid]
    exact (advance_data hs (f.strip_ftype.trans ht)).2.1
  obtain ⟨c, t', hstep, htracks', halike', hchunks', hgiven⟩ :=
    taken htracks halike (h.pending.trans halike.pending.symm) hw hplain hs
  rw [readNext_eq hstep]
  refine ⟨⟨t', htracks', halike', fun sid => ?_⟩, by rw [assembled_snoc]; exact hnext, ?_, ?_, ?_⟩
  · rw [hchunks', hchunks, payloadsOn_snoc]
  · rw [fragments_snoc, h.given, hgiven]
  · intro g hg ht
    rcases List.mem_append.mp hg with hg | hg
    · exact h.plain g hg ht
    · obtain rfl := List.mem_singleton.mp hg
      exact hplain ht
  · intro g hg ht
    rcases List.mem_append.mp hg with hg | hg
    · exact h.known g hg ht
    · obtain rfl := List.mem_singleton.mp hg
      exact hknown ht

theorem Sound.flaggedNext (h : Sound sids cap r told s) (hw : f.onWire) (hwell : f.wellPadded)
    (ht : f.ftype = .headers) (hf : f.flagged = true) (hs : s.advance hp sids f.strip = some s') :
    Spoiled (Conn.readNext hp r f) (told ++ [f]) s' ∨ Lost (Conn.readNext hp r f) (told ++ [f]) := by
  obtain ⟨t, htracks, _, _⟩ := h.raw
  have hlen := Frame.fragment_lt hwell ht hf
  have hflagged : ∃ g ∈ told ++ [f], g.ftype = .headers ∧ g.flagged = true := ⟨f, by simp, ht, hf⟩
  have hnext := pending_receive h.pending hs
  obtain ⟨c, hstep⟩ := exists_step hp htracks.reading hw
  obtain ⟨_, hmem, ho⟩ := advance_headers hs (f.strip_ftype.trans ht)
  rw [f.strip_sid] at hmem
  rw [f.strip_sid, Frame.strip_headers ht, f.strip_endStream, f.strip_endHeaders] at ho
  have hin := htracks.streams _ hmem
  by_cases he : f.endHeaders = true
  · right
    refine lost_of_given (x := f.payload) (y := fragment f) h.given hstep ?_ ?_ hlen hflagged
    · simp [Conn.given, Conn.blockEnd, ht, he, hin]
    · simp [Assembly.completes, ht, he]
  · left
    have hread : step hp r.1 (.frame f) =
        some { r.1 with hsid := some f.sid, hbuf := f.payload, hend := f.endStream } := by
      simp [step, htracks.reading, hw, Conn.readFrame, Conn.dispatch, ht, Conn.onHeaders, he]
    have hnone : r.1.given f = [] := by simp [Conn.given, Conn.blockEnd, ht, he]
    simp only [Course.offer, he, Bool.false_eq_true, ↓reduceIte, Option.some.injEq] at ho
    subst ho
    rw [readNext_eq hread, hnone, List.append_nil]
    refine ⟨htracks.reading, ?_, ⟨_, rfl, ?_, rfl, hin, hlen⟩, hflagged⟩
    · rw [fragments_snoc, h.given]
      simp [Assembly.completes, ht, he]
    · rw [assembled_snoc]
      exact hnext

-- Every frame leaves the connection in one of the three phases.
theorem phases {frames : List Frame} (hframes : ∀ f ∈ frames, f.onWire ∧ f.wellPadded)
    (hcourse : Transition.run (Course.advance hp sids) s (frames.map Frame.strip) = some s')
    (h : Sound sids cap r told s ∨ Spoiled r told s ∨ Lost r told) :
    Sound sids cap (frames.foldl (Conn.readNext hp) r) (told ++ frames) s' ∨
      Spoiled (frames.foldl (Conn.readNext hp) r) (told ++ frames) s' ∨
      Lost (frames.foldl (Conn.readNext hp) r) (told ++ frames) := by
  induction frames generalizing r told s with
  | nil =>
      cases hcourse
      simpa using h
  | cons f frames ih =>
      obtain ⟨mid, hs, hr⟩ := Transition.run_cons_eq_some.mp hcourse
      obtain ⟨hw, hwell⟩ := hframes f List.mem_cons_self
      have hrest := @ih (Conn.readNext hp r f) (told ++ [f]) mid
        (fun g hg => hframes g (List.mem_cons_of_mem f hg)) hr
      rw [List.append_assoc, List.singleton_append] at hrest
      refine hrest ?_
      rcases h with h | h | h
      · by_cases hf : f.ftype = .headers ∧ f.flagged = true
        · exact .inr (h.flaggedNext hw hwell hf.1 hf.2 hs)
        · exact .inl (h.plainNext hw (fun ht => by simpa [ht] using hf) hs)
      · exact .inr (h.next hw hs)
      · exact .inr (.inr h.next)

end Phases

theorem foldl_readNext {hp : Hpack ε δ} {frames : List Frame} {r : Conn ε δ × List Bytes} {c : Conn ε δ}
    (hrun : Transition.run (step hp) r.1 (frames.map .frame) = some c) :
    (frames.foldl (Conn.readNext hp) r).1 = c := by
  induction frames generalizing r with
  | nil => exact Option.some.inj hrun
  | cons f frames ih =>
      obtain ⟨next, hs, hr⟩ := Transition.run_cons_eq_some.mp hrun
      rw [List.foldl_cons, readNext_eq hs]
      exact ih hr

-- The data of a stream as the server means it, and as the code takes it.
theorem payloadsOn_strip (sid : Nat) (frames : List Frame) :
    (payloadsOn sid (frames.map Frame.strip)).flatten = bodySent sid frames := by
  induction frames using List.reverseRecOn with
  | nil => rfl
  | append_singleton frames f ih =>
      rw [List.map_append, List.map_singleton, payloadsOn_snoc, bodySent_snoc, List.flatten_append, ih,
        f.strip_ftype, f.strip_sid]
      split
      · rename_i hf
        simp [Frame.strip_data hf.1]
      · rfl

theorem bodySent_le (sid : Nat) (frames : List Frame) :
    (bodySent sid frames).length ≤ (payloadsOn sid frames).flatten.length := by
  induction frames using List.reverseRecOn with
  | nil => exact Nat.le_refl _
  | append_singleton frames f ih =>
      have hle := Frame.unpadded_le f
      rw [payloadsOn_snoc, bodySent_snoc, List.flatten_append, List.length_append, List.length_append]
      split
      · simp only [List.flatten_singleton]
        omega
      · simpa using ih

theorem bodySent_lt {frames : List Frame} {f : Frame} (hf : f ∈ frames) (hwell : f.wellPadded)
    (ht : f.ftype = .data) (hflag : f.flagged = true) :
    (bodySent f.sid frames).length < (payloadsOn f.sid frames).flatten.length := by
  obtain ⟨before, after, rfl⟩ := List.append_of_mem hf
  have hbefore := bodySent_le f.sid before
  have hafter := bodySent_le f.sid after
  have hlt := Frame.unpadded_lt hwell (by simpa [Frame.flagged, ht] using hflag)
  unfold bodySent payloadsOn at *
  simp only [List.filter_append, List.filter_cons, ht, decide_true, Bool.and_self, ↓reduceIte,
    List.flatMap_append, List.flatMap_cons, List.map_append, List.map_cons, List.flatten_append,
    List.flatten_cons, List.length_append]
  omega

theorem bodySent_eq {sid : Nat} {frames : List Frame}
    (h : ∀ f ∈ frames, f.ftype = .data → f.sid = sid → f.flagged = false) :
    bodySent sid frames = (payloadsOn sid frames).flatten := by
  induction frames using List.reverseRecOn with
  | nil => rfl
  | append_singleton frames f ih =>
      rw [payloadsOn_snoc, bodySent_snoc, List.flatten_append, ih fun g hg => h g (by simp [hg])]
      split
      · rename_i hf
        rw [← Frame.strip_data hf.1, Frame.strip_plain (h f (by simp) hf.1 hf.2), List.flatten_singleton]
      · rfl

theorem exceeds_iff {r : Reply} {chunks : List Bytes} (h : r.chunks = chunks) (cap : Nat) :
    r.exceeds cap ↔ cap ≠ 0 ∧ cap < chunks.flatten.length := by
  rw [Reply.exceeds, h, List.length_flatten]

section Result

variable {hp : Hpack ε δ} {sids : List Nat} {cap : Nat → Nat} {frames : List Frame}
  {r : Conn ε δ × List Bytes} {s : Course δ}

theorem Sound.depadded (h : Sound sids cap r frames s) (hwell : ∀ f ∈ frames, f.wellPadded) :
    Depadded sids cap frames r ↔ ∀ f ∈ frames, f.flagged = true → f.ftype = .data ∧ past cap frames f.sid := by
  obtain ⟨t, htracks, _, hchunks⟩ := h.raw
  constructor
  · intro hd f hf hflag
    have ht : f.ftype = .data := by
      by_contra hdata
      have hh : f.ftype ≠ .headers := fun hh => by simp [h.plain f hf hh] at hflag
      simp [Frame.flagged_other hh hdata] at hflag
    refine ⟨ht, ?_⟩
    by_contra hpast
    have hmem := h.known f hf ht
    obtain ⟨herror, hbody⟩ := hd.bodies f.sid hmem hpast
    rcases htracks.stream _ hmem with ⟨_, hst⟩ | ⟨_, hfail, _⟩
    · have hlt := bodySent_lt hf (hwell f hf) ht hflag
      rw [← hbody, hst, ← hchunks] at hlt
      exact absurd hlt (Nat.lt_irrefl _)
    · rw [hfail] at herror
      cases herror
  · intro hcond
    refine ⟨h.given, fun sid hmem hpast => ?_⟩
    have hplain : bodySent sid frames = (payloadsOn sid frames).flatten := by
      refine bodySent_eq fun f hf ht hs => ?_
      by_contra hflag
      exact hpast (hs ▸ (hcond f hf (by simpa using hflag)).2)
    rcases htracks.stream _ hmem with ⟨_, hst⟩ | ⟨hover, _⟩
    · rw [hst, hplain]
      exact ⟨rfl, congrArg List.flatten (hchunks sid)⟩
    · rw [exceeds_iff (hchunks sid), ← hplain] at hover
      exact absurd hover hpast

-- Two streams that hold the same but for padding that does not matter.
theorem Sound.outcome_eq (h : Sound sids cap r frames s)
    (hcond : ∀ f ∈ frames, f.flagged = true → f.ftype = .data ∧ past cap frames f.sid)
    (hstripped : ∀ sid, (s.reply sid).chunks = payloadsOn sid (frames.map Frame.strip)) {c : Conn ε δ}
    (hc : Tracks sids cap c s) {sid : Nat} (hmem : sid ∈ sids) :
    (r.1.obj sid).done = (c.obj sid).done ∧ Conn.outcome (r.1.obj sid) = Conn.outcome (c.obj sid) := by
  obtain ⟨t, htracks, halike, hchunks⟩ := h.raw
  have hover : (s.reply sid).exceeds (cap sid) ↔ past cap frames sid := by
    rw [exceeds_iff (hstripped sid), payloadsOn_strip]
    rfl
  have hraw := exceeds_iff (hchunks sid) (cap sid)
  have hle := bodySent_le sid frames
  by_cases hpast : past cap frames sid
  · rcases htracks.stream _ hmem with ⟨hno, _⟩ | ⟨_, hfail, hdone⟩
    · exact absurd (hraw.mpr ⟨hpast.1, Nat.lt_of_lt_of_le hpast.2 hle⟩) hno
    · rcases hc.stream _ hmem with ⟨hno, _⟩ | ⟨_, hfail', hdone'⟩
      · exact absurd (hover.mpr hpast) hno
      · exact ⟨hdone.trans hdone'.symm, by simp [Conn.outcome, hfail, hfail']⟩
  · have hplain : bodySent sid frames = (payloadsOn sid frames).flatten := by
      refine bodySent_eq fun f hf ht hs => ?_
      by_contra hflag
      exact hpast (hs ▸ (hcond f hf (by simpa using hflag)).2)
    rcases htracks.stream _ hmem with ⟨_, hst⟩ | ⟨hyes, _⟩
    · rcases hc.stream _ hmem with ⟨_, hst'⟩ | ⟨hyes, _⟩
      · rw [hst, hst']
        refine ⟨halike.ended sid, ?_⟩
        simp [Conn.outcome, Reply.stream, halike.fields, hchunks, hstripped, payloadsOn_strip, hplain]
      · exact absurd (hover.mp hyes) hpast
    · rw [hraw, ← hplain] at hyes
      exact absurd hyes hpast

end Result

-- The bodies and the blocks are without padding exactly when no frame is padded
-- or prioritised, but for DATA on streams that fail for too much of it; and
-- then the result is that of the frames without.
theorem depadded_iff (hp : Hpack ε δ) (sids : List Nat) (cap : Nat → Nat) (frames : List Frame)
    (c : Conn ε δ) (s : Course δ) (hawaiting : Awaiting c sids cap)
    (hframes : ∀ f ∈ frames, f.onWire ∧ f.wellPadded)
    (hcourse : Transition.run (Course.advance hp sids) { dec := c.dec } (frames.map Frame.strip) = some s)
    (hcomplete : s.pending = none) :
    (Depadded sids cap frames (c.read hp frames) ↔
      ∀ f ∈ frames, f.flagged = true → f.ftype = .data ∧ past cap frames f.sid) ∧
    (Depadded sids cap frames (c.read hp frames) →
      (c.read hp frames).1.dec = (c.read hp (frames.map Frame.strip)).1.dec ∧
      ∀ sid ∈ sids,
        ((c.read hp frames).1.obj sid).done = ((c.read hp (frames.map Frame.strip)).1.obj sid).done ∧
        Conn.outcome ((c.read hp frames).1.obj sid) =
          Conn.outcome ((c.read hp (frames.map Frame.strip)).1.obj sid)) := by
  have hstart : Sound sids cap (c, []) [] { dec := c.dec } :=
    ⟨⟨_, hawaiting.tracks, ⟨rfl, rfl, fun _ => rfl, fun _ => rfl⟩, fun _ => rfl⟩, rfl, rfl, by simp, by simp⟩
  have hphases := phases hframes hcourse (.inl hstart)
  rw [List.nil_append] at hphases
  rcases hphases with h | h | h
  · have hiff := h.depadded fun f hf => (hframes f hf).2
    refine ⟨hiff, fun hd => ?_⟩
    have hwire : ∀ f ∈ frames.map Frame.strip, f.onWire := by
      intro f hf
      obtain ⟨g, hg, rfl⟩ := List.mem_map.mp hf
      exact Frame.strip_onWire (hframes g hg).1
    obtain ⟨c', hrun, htracks⟩ := Tracks.run hawaiting hwire hcourse
    have hread : (c.read hp (frames.map Frame.strip)).1 = c' := foldl_readNext hrun
    obtain ⟨t, htracks', halike, _⟩ := h.raw
    rw [hread]
    exact ⟨htracks'.dec.trans (halike.dec.trans htracks.dec.symm), fun sid hmem =>
      h.outcome_eq (hiff.mp hd) (Course.chunks_run hcourse) htracks hmem⟩
  · obtain ⟨block, hpending, _⟩ := h.pending
    rw [hcomplete] at hpending
    cases hpending
  · obtain ⟨⟨i, x, y, hx, hy, hne⟩, f, hf, ht, hflag⟩ := h
    have hno : ¬Depadded sids cap frames (c.read hp frames) := by
      intro hd
      have hblocks : (frames.foldl (Conn.readNext hp) (c, [])).2 = _ := hd.blocks
      rw [hblocks, hy] at hx
      exact hne (Option.some.inj hx).symm
    refine ⟨iff_of_false hno fun hcond => ?_, fun hd => absurd hd hno⟩
    have hdata := (hcond f hf hflag).1
    rw [ht] at hdata
    cases hdata

theorem depadded_two :
    Depadded [1, 3] (fun _ => 0) twoResponses (twoSent.read staticCodec twoResponses) := by
  have hplain : ∀ f ∈ twoResponses, f.onWire ∧ f.has F_PADDED = false ∧ f.has F_PRIORITY = false := by
    decide
  refine (depadded_iff staticCodec [1, 3] (fun _ => 0) twoResponses twoSent _ awaiting_twoSent ?_ rfl
    rfl).1.mpr ?_
  · intro f hf
    obtain ⟨hw, hpadded, hpriority⟩ := hplain f hf
    exact ⟨hw, by simp [hpadded], by simp [hpriority]⟩
  · intro f hf hflag
    obtain ⟨_, hpadded, hpriority⟩ := hplain f hf
    simp [Frame.flagged, hpadded, hpriority] at hflag

-- One octet of data between its length octet and one of padding, behind a plain
-- block; and a block behind priority fields.
def paddedData : List Frame :=
  [⟨.headers, F_END_HEADERS, 1, [0x88]⟩, ⟨.data, F_PADDED ||| F_END_STREAM, 1, [1, 104, 0]⟩]

def prioritised : List Frame :=
  [⟨.headers, F_END_HEADERS ||| F_END_STREAM ||| F_PRIORITY, 1, FF_HEADERS_PRIORITY ++ [0x88]⟩]

-- The padding is delivered as data, and the priority fields end the connection.
theorem padding_not_removed :
    Conn.outcome ((twoSent.read staticCodec paddedData).1.obj 1) = .ok ⟨some 200, [], [1, 104, 0]⟩ ∧
    Conn.outcome ((twoSent.read staticCodec (paddedData.map Frame.strip)).1.obj 1) =
      .ok ⟨some 200, [], [104]⟩ ∧
    Conn.outcome ((twoSent.read staticCodec prioritised).1.obj 1) = .error .hpackError ∧
    Conn.outcome ((twoSent.read staticCodec (prioritised.map Frame.strip)).1.obj 1) =
      .ok ⟨some 200, [], []⟩ := by
  decide

end NeverFox.H2
