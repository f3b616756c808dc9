import NeverFox.H2.HpackSync
import NeverFox.H2.Request
import NeverFox.H2.Streams

namespace NeverFox.H2

variable {ε δ : Type}

-- The DATA octets that the peer has sent on a stream, without padding.
def bodySent (sid : Nat) (frames : List Frame) : Bytes :=
  (frames.filter fun f => f.ftype = .data && f.sid = sid).flatMap unpadded

-- END_STREAM has come, with DATA or with a header block that is complete.
def ended (sid : Nat) (frames : List Frame) : Bool :=
  frames.any (fun f => f.ftype = .data && f.sid = sid && f.endStream) ||
    (assembled frames).blocks.any fun block => block.sid = sid && block.endStream

-- What the frames of the peer say on a stream.
def responseSent (hp : Hpack ε δ) (sid : Nat) (frames : List Frame) : RawResponse :=
  let fields := hp.sentFields (assembled frames).blocks sid
  ⟨statusOf fields, plainFields fields, bodySent sid frames⟩

def isStreamFrame (f : Frame) : Bool :=
  f.ftype = .data || f.ftype = .headers || f.ftype = .continuation

-- A peer that answers on a stream: it keeps to the framing rules, does not take
-- the stream back, stays within the cap, and leaves the connection open until
-- the answer is complete.
def answers (sid : Nat) (frames : List Frame) (c : Conn ε δ) : Event → Prop
  | .frame f =>
      (f.ftype = .rst → f.sid ≠ sid) ∧
      (f.ftype = .goaway → sid ≤ Conn.goawayLastSid f) ∧
      (f.ftype = .settings → 6 ∣ f.payload.length) ∧
      (isStreamFrame f → f.sid = sid → sid < c.nextId ∧ ended sid frames = false) ∧
      (∀ block, (assembled frames).pending = some block →
        f.ftype = .continuation ∧ f.sid = block.sid) ∧
      (sid < c.nextId → (c.obj sid).maxBytes = 0 ∨
        (bodySent sid (frames ++ [f])).length ≤ (c.obj sid).maxBytes)
  | .eof => sid < c.nextId → ended sid frames = true
  | _ => True

theorem assembled_snoc (frames : List Frame) (f : Frame) :
    assembled (frames ++ [f]) = (assembled frames).receive f := by
  simp [assembled]

-- The block that a frame completes for the peer.
def Assembly.completes (a : Assembly) (f : Frame) : Option Block :=
  match f.ftype with
  | .headers => if f.endHeaders then some ⟨f.sid, H2.fragment f, f.endStream⟩ else none
  | .continuation =>
      if f.endHeaders then
        a.pending.map fun block => { block with fragment := block.fragment ++ f.payload }
      else none
  | _ => none

theorem Assembly.blocks_receive (a : Assembly) (f : Frame) :
    (a.receive f).blocks = a.blocks ++ (a.completes f).toList := by
  unfold receive completes offer
  cases ht : f.ftype with
  | headers => by_cases he : f.endHeaders <;> simp [he]
  | continuation =>
      cases a.pending with
      | none => simp
      | some block => by_cases he : f.endHeaders <;> simp [he]
  | _ => simp

theorem ended_snoc (sid : Nat) (frames : List Frame) (f : Frame) :
    ended sid (frames ++ [f]) = (ended sid frames ||
      ((f.ftype = .data && f.sid = sid && f.endStream) ||
        ((assembled frames).completes f).any fun block => block.sid = sid && block.endStream)) := by
  unfold ended
  rw [assembled_snoc, Assembly.blocks_receive, List.any_append, List.any_append]
  cases (assembled frames).completes f with
  | none => simp [Bool.or_right_comm]
  | some block => simp [Bool.or_assoc, Bool.or_left_comm]

theorem bodySent_snoc (sid : Nat) (frames : List Frame) (f : Frame) :
    bodySent sid (frames ++ [f]) =
      bodySent sid frames ++ if f.ftype = .data ∧ f.sid = sid then unpadded f else [] := by
  unfold bodySent
  rw [List.filter_append, List.flatMap_append]
  by_cases hf : f.ftype = .data ∧ f.sid = sid
  · simp [hf]
  · have hf' : (f.ftype = .data && f.sid = sid) = false := by
      simpa [Bool.and_eq_false_imp] using fun h => fun h' => hf ⟨h, h'⟩
    simp [hf, hf']

-- The blocks a stream is not in do not change what was said on it.
theorem sentFields_receive (hp : Hpack ε δ) (a : Assembly) (f : Frame) {sid : Nat}
    (h : ∀ block, a.completes f = some block → block.sid ≠ sid) :
    hp.sentFields (a.receive f).blocks sid = hp.sentFields a.blocks sid := by
  rw [Assembly.blocks_receive]
  cases hc : a.completes f with
  | none => simp
  | some block =>
      rw [Option.toList_some, Hpack.sentFields_snoc, if_neg (h block hc), List.append_nil]

-- A stream that is being served: it holds what the peer has sent on it, and is
-- done exactly when the peer has ended it. Until then its reader is at work.
structure Serving (hp : Hpack ε δ) (sid : Nat) (c : Conn ε δ) (frames : List Frame) : Prop where
  opened : sid < c.nextId
  body : (c.obj sid).chunks.flatten = bodySent sid frames
  counted : (c.obj sid).nbytes = (bodySent sid frames).length
  error : (c.obj sid).error = none
  headers : (c.obj sid).headers = plainFields (hp.sentFields (assembled frames).blocks sid)
  status : (c.obj sid).status = statusOf (hp.sentFields (assembled frames).blocks sid)
  done : (c.obj sid).done = ended sid frames
  awaited : ended sid frames = false → c.reading = true ∧ c.tp.stop = false ∧ sid ∈ c.streams
  spent : ended sid frames = true → ∀ block, (assembled frames).pending = some block → block.sid ≠ sid

-- Between a header block's frames the peer sends nothing else, and it sends
-- nothing on a stream it has ended.
theorem completes_open {sid : Nat} {frames : List Frame} {c : Conn ε δ} {f : Frame}
    (ha : answers sid frames c (.frame f))
    (hover : ended sid frames = true → ∀ block, (assembled frames).pending = some block → block.sid ≠ sid)
    {block : Block} (hc : (assembled frames).completes f = some block) (hs : block.sid = sid) :
    ended sid frames = false := by
  obtain ⟨_, _, _, hopen, _, _⟩ := ha
  unfold Assembly.completes at hc
  split at hc
  · rename_i ht
    split at hc
    · obtain rfl := Option.some.inj hc
      exact (hopen (by simp [isStreamFrame, ht]) hs).2
    · cases hc
  · split at hc
    · obtain ⟨pending, hp, rfl⟩ := Option.map_eq_some_iff.mp hc
      by_contra hend
      exact hover (by simpa using hend) pending hp hs
    · cases hc
  · cases hc

-- A frame that leaves its block open ends nothing.
theorem ended_open {sid : Nat} {frames : List Frame} {f : Frame} (hd : f.ftype ≠ .data)
    (he : f.endHeaders = false) : ended sid (frames ++ [f]) = ended sid frames := by
  have hcompletes : (assembled frames).completes f = none := by
    unfold Assembly.completes
    split <;> simp [he]
  rw [ended_snoc, hcompletes]
  simp [hd]

theorem Assembly.offer_pending {a : Assembly} {block b : Block} {complete : Bool}
    (h : (a.offer block complete).pending = some b) : complete = false ∧ block = b := by
  unfold Assembly.offer at h
  split at h
  · cases h
  · rename_i hopen
    exact ⟨by simpa using hopen, Option.some.inj h⟩

theorem over_receive {sid : Nat} {frames : List Frame} {c : Conn ε δ} {f : Frame}
    (ha : answers sid frames c (.frame f))
    (hover : ended sid frames = true → ∀ block, (assembled frames).pending = some block → block.sid ≠ sid) :
    ended sid (frames ++ [f]) = true →
      ∀ block, (assembled (frames ++ [f])).pending = some block → block.sid ≠ sid := by
  intro hend block hb
  obtain ⟨_, _, _, hopen, hcontig, _⟩ := ha
  rw [assembled_snoc] at hb
  cases ht : f.ftype with
  | headers =>
      simp only [Assembly.receive, ht] at hb
      obtain ⟨he, rfl⟩ := Assembly.offer_pending hb
      rw [ended_open (by simp [ht]) he] at hend
      intro hs
      rw [(hopen (by simp [isStreamFrame, ht]) hs).2] at hend
      cases hend
  | continuation =>
      simp only [Assembly.receive, ht] at hb
      cases hp : (assembled frames).pending with
      | none =>
          rw [hp] at hb
          dsimp only at hb
          rw [hp] at hb
          cases hb
      | some pending =>
          simp only [hp] at hb
          obtain ⟨he, rfl⟩ := Assembly.offer_pending hb
          rw [ended_open (by simp [ht]) he] at hend
          exact hover hend pending hp
  | _ =>
      have hsame : (assembled frames).receive f = assembled frames := by
        unfold Assembly.receive
        rw [ht]
      rw [hsame] at hb
      have hcont := (hcontig block hb).1
      rw [ht] at hcont
      cases hcont

theorem storeFields_quiet (st : Stream) (fields : List Header) (h : numericStatus fields) :
    (Conn.storeFields st fields).2 = none := by
  induction fields generalizing st with
  | nil => rfl
  | cons field rest ih =>
      obtain ⟨hfield, hrest⟩ : (field.1 = ":status" → (PyText.intOfStr 10 field.2.toList).isSome) ∧
          numericStatus rest := by
        simpa [numericStatus, Decidable.imp_iff_not_or] using h
      unfold Conn.storeFields
      split
      · rename_i hn
        obtain ⟨status, hs⟩ := Option.isSome_iff_exists.mp (hfield hn)
        rw [hs]
        exact ih _ hrest
      · exact ih _ hrest

theorem finishHeaders_quiet (hp : Hpack ε δ) (c : Conn ε δ)
    (h : ∀ sid, c.hsid = some sid → match (hp.decode c.dec c.hbuf).2 with
      | .ok fields => numericStatus fields = true
      | .error _ => False) : (c.finishHeaders hp).2 = none := by
  unfold Conn.finishHeaders
  split
  · rfl
  · rename_i sid hf
    have hm := h sid (Option.filter_eq_some_iff.mp hf).1
    dsimp only
    split at hm
    · rename_i fields hdec
      rw [hdec]
      dsimp only
      rw [storeFields_quiet _ _ hm]
    · exact hm.elim

-- A block that is heard and valid reaches the stream it belongs to and no other.
theorem finishHeaders_stream (hp : Hpack ε δ) {c : Conn ε δ} {owner : Nat} (hs : c.hsid = some owner)
    (hin : owner ∈ c.streams) (hok : match (hp.decode c.dec c.hbuf).2 with
      | .ok fields => numericStatus fields = true
      | .error _ => False) (sid : Nat) :
    (c.finishHeaders hp).2 = none ∧
      (owner ≠ sid → (c.finishHeaders hp).1.obj sid = c.obj sid) ∧
      (owner = sid → Conn.SameBody (c.obj sid) ((c.finishHeaders hp).1.obj sid) ∧
        ((c.finishHeaders hp).1.obj sid).done = ((c.obj sid).done || c.hend)) := by
  have hquiet := finishHeaders_quiet hp c fun _ _ => hok
  refine ⟨hquiet, ?_, ?_⟩
  · intro hne
    exact Conn.finishHeaders_other hp (by rw [hs]; exact fun he => hne (Option.some.inj he))
  · rintro rfl
    exact Conn.finishHeaders_self hp hs hin hquiet

-- What a header frame does to a stream: nothing, unless it completes a block of it.
theorem InStep.dispatch_stream {hp : Hpack ε δ} {c : Conn ε δ} {a : Assembly} (h : InStep hp c a)
    {f : Frame} (hkind : f.ftype = .headers ∨ f.ftype = .continuation)
    (hvalid : validBlock hp c (.frame f)) (hheard : blockHeard c (.frame f)) (sid : Nat) :
    (c.dispatch hp f).2 = none ∧
      ((∀ block, a.completes f = some block → block.sid ≠ sid) →
        (c.dispatch hp f).1.obj sid = c.obj sid) ∧
      ∀ block, a.completes f = some block → block.sid = sid →
        sid ∈ c.streams ∧ Conn.SameBody (c.obj sid) ((c.dispatch hp f).1.obj sid) ∧
          ((c.dispatch hp f).1.obj sid).done = ((c.obj sid).done || block.endStream) := by
  have hblock : ∀ owner data, c.blockEnd f = some (owner, data) → owner ∈ c.streams ∧
      match (hp.decode c.dec data).2 with
      | .ok fields => numericStatus fields = true
      | .error _ => False := by
    intro owner data hb
    simp only [blockHeard, hb, Option.all_some, Bool.and_eq_true, decide_eq_true_eq] at hheard
    simp only [validBlock, hb, Option.all_some] at hvalid
    refine ⟨hheard.2, ?_⟩
    split at hvalid <;> simp_all
  rcases hkind with ht | ht
  · have hd : c.dispatch hp f = c.onHeaders hp f := by
      unfold Conn.dispatch
      rw [ht]
    rw [hd]
    unfold Conn.onHeaders
    dsimp only
    by_cases he : f.endHeaders
    · have hc : a.completes f = some ⟨f.sid, fragment f, f.endStream⟩ := by
        simp [Assembly.completes, ht, he]
      obtain ⟨hin, hok⟩ := hblock f.sid f.payload (by simp [Conn.blockEnd, ht, he])
      obtain ⟨hquiet, hother, hself⟩ := finishHeaders_stream hp (c := { c with
        hsid := some f.sid, hbuf := f.payload, hend := f.endStream }) rfl hin hok sid
      rw [if_pos he, hc]
      refine ⟨hquiet, fun hne => hother (hne _ rfl), ?_⟩
      rintro block ⟨⟩ hs
      exact ⟨hs ▸ hin, hself hs⟩
    · have hc : a.completes f = none := by simp [Assembly.completes, ht, he]
      rw [if_neg he, hc]
      exact ⟨rfl, fun _ => rfl, by simp⟩
  · have hd : c.dispatch hp f = c.onContinuation hp f := by
      unfold Conn.dispatch
      rw [ht]
    rw [hd]
    unfold Conn.onContinuation
    dsimp only
    by_cases he : f.endHeaders
    · rw [if_pos he]
      cases hpend : a.pending with
      | none =>
          -- outside any block nothing is decoded
          have hc : a.completes f = none := by simp [Assembly.completes, ht, hpend]
          have hnone := h.idle hpend
          rw [hc]
          refine ⟨finishHeaders_quiet hp _ ?_, fun _ => Conn.finishHeaders_other hp ?_, by simp⟩
          · intro owner ho
            rw [show c.hsid = some owner from ho] at hnone
            cases hnone
          · dsimp only
            rw [hnone]
            simp
      | some block =>
          obtain ⟨hsid, hbuf, hend⟩ := h.pending block hpend
          have hc : a.completes f =
              some { block with fragment := block.fragment ++ f.payload } := by
            simp [Assembly.completes, ht, he, hpend]
          obtain ⟨hin, hok⟩ := hblock block.sid (c.hbuf ++ f.payload)
            (by simp [Conn.blockEnd, ht, he, hsid])
          obtain ⟨hquiet, hother, hself⟩ := finishHeaders_stream hp
            (c := { c with hbuf := c.hbuf ++ f.payload }) hsid hin hok sid
          rw [hc]
          refine ⟨hquiet, fun hne => hother (hne { block with fragment := block.fragment ++ f.payload } rfl), ?_⟩
          rintro _ ⟨⟩ hs
          rw [← hend]
          exact ⟨hs ▸ hin, hself hs⟩
    · have hc : a.completes f = none := by simp [Assembly.completes, ht, he]
      rw [if_neg he, hc]
      exact ⟨rfl, fun _ => rfl, by simp⟩

namespace Serving

variable {hp : Hpack ε δ} {sid : Nat} {c c' : Conn ε δ} {frames : List Frame}

theorem keep (h : Serving hp sid c frames) (hobj : c'.obj sid = c.obj sid)
    (hnext : c.nextId ≤ c'.nextId)
    (hawaited : ended sid frames = false → c'.reading = true ∧ c'.tp.stop = false ∧ sid ∈ c'.streams) :
    Serving hp sid c' frames where
  opened := Nat.lt_of_lt_of_le h.opened hnext
  body := by rw [hobj]; exact h.body
  counted := by rw [hobj]; exact h.counted
  error := by rw [hobj]; exact h.error
  headers := by rw [hobj]; exact h.headers
  status := by rw [hobj]; exact h.status
  done := by rw [hobj]; exact h.done
  awaited := hawaited
  spent := h.spent

theorem awaited_kept (h : Serving hp sid c frames) (hk : Conn.Kept c c') :
    ended sid frames = false → c'.reading = true ∧ c'.tp.stop = false ∧ sid ∈ c'.streams := by
  intro he
  obtain ⟨hr, hs, hm⟩ := h.awaited he
  exact ⟨hk.reading.trans hr, hk.stop.trans hs, hk.streams ▸ hm⟩

-- A frame that says nothing on the stream.
theorem unheard (h : Serving hp sid c frames) {f : Frame} (hk : Conn.Kept c c')
    (ha : answers sid frames c (.frame f)) (hobj : c'.obj sid = c.obj sid)
    (hdata : f.ftype = .data → f.sid ≠ sid)
    (hblock : ∀ block, (assembled frames).completes f = some block → block.sid ≠ sid) :
    Serving hp sid c' (frames ++ [f]) := by
  have hbody : bodySent sid (frames ++ [f]) = bodySent sid frames := by
    rw [bodySent_snoc, if_neg (fun hf => hdata hf.1 hf.2), List.append_nil]
  have hfields : hp.sentFields (assembled (frames ++ [f])).blocks sid =
      hp.sentFields (assembled frames).blocks sid := by
    rw [assembled_snoc]
    exact sentFields_receive hp _ f hblock
  have hended : ended sid (frames ++ [f]) = ended sid frames := by
    rw [ended_snoc]
    have hnone : ((assembled frames).completes f).any
        (fun block => block.sid = sid && block.endStream) = false := by
      cases hc : (assembled frames).completes f with
      | none => rfl
      | some block => simp [hblock block hc]
    have hno : (f.ftype = .data && f.sid = sid && f.endStream) = false := by
      by_cases ht : f.ftype = .data
      · simp [hdata ht]
      · simp [ht]
    rw [hnone, hno, Bool.or_false, Bool.or_false]
  have hkeep := h.keep hobj (Nat.le_of_eq hk.nextId.symm) (h.awaited_kept hk)
  exact ⟨hkeep.opened, hbody ▸ hkeep.body, hbody ▸ hkeep.counted, hkeep.error, hfields ▸ hkeep.headers,
    hfields ▸ hkeep.status, hended ▸ hkeep.done, hended ▸ hkeep.awaited, over_receive ha h.spent⟩

-- A frame that carries the last field or octet so far of the stream.
theorem heard (h : Serving hp sid c frames) {f : Frame} (hk : Conn.Kept c c')
    (ha : answers sid frames c (.frame f))
    (hin : InStep hp c' (assembled (frames ++ [f])))
    (hopen : ended sid frames = false)
    (hbody : (c'.obj sid).chunks.flatten = bodySent sid (frames ++ [f]))
    (hcounted : (c'.obj sid).nbytes = (bodySent sid (frames ++ [f])).length)
    (herror : (c'.obj sid).error = none)
    (hdone : (c'.obj sid).done = ended sid (frames ++ [f])) : Serving hp sid c' (frames ++ [f]) := by
  have hm : sid ∈ c'.streams := hk.streams ▸ (h.awaited hopen).2.2
  exact ⟨Nat.lt_of_lt_of_eq h.opened hk.nextId.symm, hbody, hcounted, herror, hin.headers sid hm,
    hin.status sid hm, hdone, fun _ => h.awaited_kept hk hopen, over_receive ha h.spent⟩

theorem dispatch (h : Serving hp sid c frames) (hin : InStep hp c (assembled frames))
    (hfate : ∀ n, c.tp.fate n = none) {f : Frame} (ha : answers sid frames c (.frame f))
    (hvalid : validBlock hp c (.frame f)) (hheard : blockHeard c (.frame f))
    (hpad : f.ftype = .data → f.sid = sid → f.has F_PADDED = false) :
    (c.dispatch hp f).2 = none ∧ Serving hp sid (c.dispatch hp f).1 (frames ++ [f]) := by
  have hk := Conn.kept_dispatch hp c f
  have hafter : InStep hp (c.dispatch hp f).1 (assembled (frames ++ [f])) := by
    rw [assembled_snoc]
    exact hin.dispatch f hvalid hheard
  have hanswers := ha
  obtain ⟨hrst, hgoaway, hsettings, hopen, hcontig, hcap⟩ := ha
  by_cases hkind : f.ftype = .headers ∨ f.ftype = .continuation
  · obtain ⟨hquiet, hother, hself⟩ := hin.dispatch_stream hkind hvalid hheard sid
    have hdata : f.ftype ≠ .data := by
      rcases hkind with ht | ht <;> rw [ht] <;> decide
    refine ⟨hquiet, ?_⟩
    by_cases hblock : ∀ block, (assembled frames).completes f = some block → block.sid ≠ sid
    · exact h.unheard hk hanswers (hother hblock) (fun ht => absurd ht hdata) hblock
    · simp only [not_forall, ne_eq, not_not] at hblock
      obtain ⟨block, hc, hs⟩ := hblock
      obtain ⟨_, hsame, hdone⟩ := hself block hc hs
      have hno := completes_open hanswers h.spent hc hs
      have hbody : bodySent sid (frames ++ [f]) = bodySent sid frames := by
        rw [bodySent_snoc, if_neg (fun hf => hdata hf.1), List.append_nil]
      refine h.heard hk hanswers hafter hno ?_ ?_ ?_ ?_
      · rw [hsame.chunks, hbody]
        exact h.body
      · rw [hsame.nbytes, hbody]
        exact h.counted
      · exact hsame.error.trans h.error
      · rw [hdone, h.done, ended_snoc, hc, hno]
        simp [hs, hdata]
  · obtain ⟨hh, hcont⟩ := not_or.mp hkind
    have hcompletes : (assembled frames).completes f = none := by
      unfold Assembly.completes
      split
      · exact absurd ‹_› hh
      · exact absurd ‹_› hcont
      · rfl
    by_cases hd : f.ftype = .data ∧ f.sid = sid
    · obtain ⟨ht, hs⟩ := hd
      have hno := (hopen (by simp [isStreamFrame, ht]) hs).2
      have hplain : unpadded f = f.payload := by simp [unpadded, hpad ht hs]
      have hsent : bodySent sid (frames ++ [f]) = bodySent sid frames ++ f.payload := by
        rw [bodySent_snoc, if_pos ⟨ht, hs⟩, hplain]
      have hobj := Conn.onData_heard (f := f) hfate
        (by rw [hs]; exact ⟨(h.awaited hno).2.2, by rw [h.done, hno]⟩)
        (by
          rw [hs, h.counted]
          have hlen := hcap h.opened
          rwa [hsent, List.length_append] at hlen)
      have hdispatch : c.dispatch hp f = c.onData f := by
        unfold Conn.dispatch
        rw [ht]
      rw [hs] at hobj
      rw [hdispatch] at hafter hk ⊢
      refine ⟨Conn.onData_quiet hfate f, h.heard hk hanswers hafter hno ?_ ?_ ?_ ?_⟩
      · rw [hobj, hsent, ← h.body]
        simp
      · rw [hobj, hsent, List.length_append, ← h.counted]
      · rw [hobj]
        exact h.error
      · rw [hobj, ended_snoc, hno, hcompletes]
        simp [ht, hs]
    · have hdata : f.ftype = .data → f.sid ≠ sid := fun ht hs => hd ⟨ht, hs⟩
      obtain ⟨hquiet, hobj⟩ := Conn.dispatch_other hp hfate hh hcont
        (fun ht => (hdata ht).symm) (fun ht => (hrst ht).symm) hgoaway hsettings
      refine ⟨hquiet, h.unheard hk hanswers hobj hdata ?_⟩
      simp [hcompletes]

theorem over_exit (h : Serving hp sid c frames) (hend : ended sid frames = true) (exc : Exn) :
    (c.exitReader exc).obj sid = c.obj sid := by
  have hd : (c.obj sid).done = true := h.done.trans hend
  simp [Conn.exitReader, Conn.failAll, Conn.failItems_eq, hd]

theorem exit (h : Serving hp sid c frames) (hend : ended sid frames = true) (exc : Exn) :
    Serving hp sid (c.exitReader exc) frames :=
  h.keep (h.over_exit hend exc) (Nat.le_of_eq (Conn.stable_exitReader c exc).nextId.symm)
    fun hno => by simp [hend] at hno

theorem send (h : Serving hp sid c frames) (args : SendArgs) :
    Serving hp sid (c.send hp args).1 frames := by
  have hk := Conn.sendKept_send hp c args
  rcases c.send_cases hp args with ⟨hnext, hobj, hstreams, _⟩ | ⟨_, hnext, hobj, hstreams, _⟩
  · refine h.keep (by rw [hobj]) (Nat.le_of_eq hnext.symm) ?_
    intro hno
    obtain ⟨hr, hs, hm⟩ := h.awaited hno
    exact ⟨hk.reading.trans hr, hk.stop.trans hs, hstreams ▸ hm⟩
  · refine h.keep ?_ (by rw [hnext]; exact Nat.le_add_right _ _) ?_
    · rw [hobj]
      exact Function.update_of_ne (Nat.ne_of_lt h.opened) _ _
    · intro hno
      obtain ⟨hr, hs, hm⟩ := h.awaited hno
      refine ⟨hk.reading.trans hr, hk.stop.trans hs, ?_⟩
      rw [hstreams]
      exact (c.mem_register _ _ _).mpr (.inl hm)

-- A stream that is over returns what the peer has said on it.
theorem outcome (h : Serving hp sid c frames) :
    Conn.outcome (c.obj sid) = .ok (responseSent hp sid frames) := by
  unfold Conn.outcome responseSent
  rw [h.error, h.headers, h.status, h.body]

theorem close (h : Serving hp sid c frames) (hend : ended sid frames = true) :
    Serving hp sid c.close frames := by
  have hvacuous : ∀ c' : Conn ε δ, ended sid frames = false →
      c'.reading = true ∧ c'.tp.stop = false ∧ sid ∈ c'.streams := fun _ hno => by simp [hend] at hno
  refine h.keep ?_ (Nat.le_of_eq (Conn.stable_close c).nextId.symm) (hvacuous _)
  rcases c.close_cases with ⟨_, he⟩ | ⟨_, he⟩ | ⟨_, he⟩ <;> rw [he]
  exact h.over_exit hend _

-- Nobody pops the stream or closes its connection before the answer is complete.
def undisturbed (sid : Nat) (frames : List Frame) : Event → Prop
  | .pop other => other = sid → ended sid frames = true
  | .close => ended sid frames = true
  | _ => True

-- No block is missed, and no padding is taken for content.
def parsed (sid : Nat) (c : Conn ε δ) (e : Event) : Bool :=
  blockHeard c e && match e with
    | .frame f => !(f.ftype = .data && f.sid = sid && f.has F_PADDED)
    | _ => true

theorem step (h : Serving hp sid c frames) (hin : InStep hp c (assembled frames))
    (hfate : ∀ n, c.tp.fate n = none) {e : Event} (ha : answers sid frames c e)
    (hvalid : validBlock hp c e) (hparsed : parsed sid c e) (hu : undisturbed sid frames e)
    (hs : H2.step hp c e = some c') : Serving hp sid c' (frames ++ framesOf [e]) := by
  obtain ⟨hheard, hpad⟩ := Bool.and_eq_true_iff.mp hparsed
  have hplain : ∀ f, e = .frame f → f.ftype = .data → f.sid = sid → f.has F_PADDED = false := by
    rintro f rfl ht hs
    simpa [ht, hs] using hpad
  cases step_happens hs with
  | frame f => exact (h.dispatch hin hfate ha hvalid hheard (hplain f rfl)).2
  | raised f exc _ _ he =>
      have hquiet := (h.dispatch hin hfate ha hvalid hheard (hplain f rfl)).1
      rw [hquiet] at he
      cases he
  | eof => exact (List.append_nil frames).symm ▸ h.exit (ha h.opened) _
  | stopped _ hstop =>
      have hend : ended sid frames = true := by
        by_contra hno
        have hrun := (h.awaited (by simpa using hno)).2.1
        rw [hrun] at hstop
        cases hstop
      exact (List.append_nil frames).symm ▸ h.exit hend _
  | idle | refused => exact (List.append_nil frames).symm ▸ h
  | acquire => exact (List.append_nil frames).symm ▸ h.keep rfl (Nat.le_refl _) h.awaited
  | send args => exact (List.append_nil frames).symm ▸ h.send args
  | rst other =>
      have hk := Conn.kept_sendRst c other
      exact (List.append_nil frames).symm ▸ h.keep (by rw [Conn.sendRst_obj])
        (Nat.le_of_eq hk.nextId.symm) (h.awaited_kept hk)
  | pop other =>
      refine (List.append_nil frames).symm ▸ h.keep rfl (Nat.le_refl _) ?_
      intro hno
      obtain ⟨hr, hstop, hm⟩ := h.awaited hno
      refine ⟨hr, hstop, (List.mem_erase_of_ne ?_).mpr hm⟩
      rintro rfl
      rw [hu rfl] at hno
      cases hno
  | close => exact (List.append_nil frames).symm ▸ h.close hu

-- A send that takes the id opens the stream, with nothing said on it yet.
theorem opens (hin : InStep hp c (assembled frames)) (hlive : c.Live)
    (hbody : bodySent c.nextId frames = []) (hended : ended c.nextId frames = false) (args : SendArgs)
    (hnext : c.nextId < (c.send hp args).1.nextId) :
    Serving hp c.nextId (c.send hp args).1 frames := by
  have hk := Conn.sendKept_send hp c args
  rcases c.send_cases hp args with ⟨hsame, _⟩ | ⟨hopen, _, hobj, hstreams, _⟩
  · rw [hsame] at hnext
    exact absurd hnext (Nat.lt_irrefl _)
  · have hsent : hp.sentFields (assembled frames).blocks c.nextId = [] :=
      hp.sentFields_of_fresh _ _ fun block hb => Nat.ne_of_lt (hin.blockIds block hb)
    have hfresh : (c.send hp args).1.obj c.nextId = { sid := c.nextId, maxBytes := args.maxBytes } := by
      rw [hobj]
      exact Function.update_self ..
    refine ⟨hnext, ?_, ?_, ?_, ?_, ?_, ?_, ?_, ?_⟩
    · rw [hfresh, hbody]
      rfl
    · rw [hfresh, hbody]
      rfl
    · rw [hfresh]
    · rw [hfresh, hsent]
      rfl
    · rw [hfresh, hsent]
      rfl
    · rw [hfresh, hended]
    · intro _
      refine ⟨hk.reading.trans (hlive.reading hopen), hk.stop.trans (hlive.stop hopen), ?_⟩
      rw [hstreams]
      exact (c.mem_register _ _ _).mpr (.inr rfl)
    · intro hend
      rw [hended] at hend
      cases hend

end Serving

theorem ended_mono {sid : Nat} {frames : List Frame} (h : ended sid frames = true) (e : Event) :
    ended sid (frames ++ framesOf [e]) = true := by
  cases e with
  | frame f =>
      change ended sid (frames ++ [f]) = true
      rw [ended_snoc, h]
      rfl
  | _ => exact (congrArg (ended sid) (List.append_nil frames)).trans h

-- What was said on a stream is final once it is ended.
theorem responseSent_over {hp : Hpack ε δ} {sid : Nat} {c : Conn ε δ} {frames : List Frame} {e : Event}
    (h : Serving hp sid c frames) (ha : answers sid frames c e) (hend : ended sid frames = true) :
    responseSent hp sid (frames ++ framesOf [e]) = responseSent hp sid frames := by
  cases e with
  | frame f =>
      have hopen := ha.2.2.2.1
      have hbody : bodySent sid (frames ++ [f]) = bodySent sid frames := by
        rw [bodySent_snoc, if_neg ?_, List.append_nil]
        rintro ⟨ht, hs⟩
        have hno := (hopen (by simp [isStreamFrame, ht]) hs).2
        rw [hend] at hno
        cases hno
      have hfields : hp.sentFields (assembled (frames ++ [f])).blocks sid =
          hp.sentFields (assembled frames).blocks sid := by
        rw [assembled_snoc]
        refine sentFields_receive hp _ f fun block hc hs => ?_
        have hno := completes_open ha h.spent hc hs
        rw [hend] at hno
        cases hno
      change responseSent hp sid (frames ++ [f]) = _
      simp only [responseSent, hbody, hfields]
  | _ => exact congrArg (responseSent hp sid) (List.append_nil frames)

theorem assembled_observe (frames : List Frame) (e : Event) :
    assembled (frames ++ framesOf [e]) = (assembled frames).observe e := by
  cases e with
  | frame f => exact assembled_snoc frames f
  | _ => exact congrArg assembled (List.append_nil frames)

theorem fate_step {hp : Hpack ε δ} {c c' : Conn ε δ} {e : Event} (hs : step hp c e = some c') :
    c'.tp.fate = c.tp.fate := by
  cases step_happens hs with
  | frame f => exact (Conn.kept_dispatch hp c f).fate
  | raised f exc =>
      exact (Conn.stable_exitReader _ exc).fate.trans (Conn.kept_dispatch hp c f).fate
  | eof | stopped => exact (Conn.stable_exitReader c _).fate
  | send args => exact (Conn.sendKept_send hp c args).fate
  | rst sid => exact (Conn.kept_sendRst c sid).fate
  | close => exact (Conn.stable_close c).fate
  | _ => rfl

-- Ids go up in steps of two, and only a send takes one.
theorem nextId_step {hp : Hpack ε δ} {c c' : Conn ε δ} {e : Event} (hs : step hp c e = some c') :
    c'.nextId = c.nextId ∨
      c'.nextId = c.nextId + 2 ∧ ∃ args, e = .send args ∧ c' = (c.send hp args).1 := by
  cases step_happens hs with
  | frame f => exact .inl (Conn.kept_dispatch hp c f).nextId
  | raised f exc =>
      exact .inl ((Conn.stable_exitReader _ exc).nextId.trans (Conn.kept_dispatch hp c f).nextId)
  | eof | stopped => exact .inl (Conn.stable_exitReader c _).nextId
  | send args =>
      rcases c.send_cases hp args with ⟨hn, _⟩ | ⟨_, hn, _⟩
      · exact .inl hn
      · exact .inr ⟨hn, args, rfl, rfl⟩
  | rst sid => exact .inl (Conn.kept_sendRst c sid).nextId
  | close => exact .inl (Conn.stable_close c).nextId
  | _ => exact .inl rfl

-- A connection with what it was given so far, from before the stream is opened.
structure Tracked (hp : Hpack ε δ) (sid : Nat) (c : Conn ε δ) (frames : List Frame) : Prop where
  instep : InStep hp c (assembled frames)
  live : c.Live
  sound : ∀ n, c.tp.fate n = none
  odd : c.nextId % 2 = 1
  untouched : c.nextId ≤ sid → ∀ f ∈ frames, f.ftype = .data → f.sid ≠ sid
  serving : sid < c.nextId → Serving hp sid c frames

namespace Tracked

variable {hp : Hpack ε δ} {sid : Nat} {c c' : Conn ε δ} {frames : List Frame}

theorem init (hp : Hpack ε δ) {fate : Nat → Option Nat} (hfate : ∀ n, fate n = none) (hodd : sid % 2 = 1) :
    Tracked hp sid (.init hp fate) [] := by
  refine ⟨InStep.init hp fate, Conn.live_init hp fate, hfate, rfl, nofun, ?_⟩
  intro hlt
  change sid < 1 at hlt
  omega

theorem bodySent_nil (h : ∀ f ∈ frames, f.ftype = .data → f.sid ≠ sid) : bodySent sid frames = [] := by
  unfold bodySent
  rw [List.flatMap_eq_nil_iff]
  intro f hf
  obtain ⟨hm, hd⟩ := List.mem_filter.mp hf
  simp only [Bool.and_eq_true, decide_eq_true_eq] at hd
  exact absurd hd.2 (h f hm hd.1)

theorem ended_false (h : Tracked hp sid c frames) (hnext : c.nextId ≤ sid) : ended sid frames = false := by
  unfold ended
  rw [Bool.or_eq_false_iff, List.any_eq_false, List.any_eq_false]
  constructor
  · intro f hf hd
    simp only [Bool.and_eq_true, decide_eq_true_eq] at hd
    exact h.untouched hnext f hf hd.1.1 hd.1.2
  · intro block hb hs
    simp only [Bool.and_eq_true, decide_eq_true_eq] at hs
    have hlt := h.instep.blockIds block hb
    omega

theorem step (h : Tracked hp sid c frames) (hodd : sid % 2 = 1) {e : Event}
    (ha : answers sid frames c e) (hvalid : validBlock hp c e) (hparsed : Serving.parsed sid c e)
    (hu : sid < c.nextId → Serving.undisturbed sid frames e) (hs : H2.step hp c e = some c') :
    Tracked hp sid c' (frames ++ framesOf [e]) := by
  have hnext := nextId_step hs
  refine ⟨?_, h.live.step hs, ?_, ?_, ?_, ?_⟩
  · rw [assembled_observe]
    exact h.instep.step hvalid (Bool.and_eq_true_iff.mp hparsed).1 hs
  · rw [fate_step hs]
    exact h.sound
  · have hold := h.odd
    omega
  · intro hlow f hf ht
    have hlow' : c.nextId ≤ sid := by omega
    rcases List.mem_append.mp hf with hf | hf
    · exact h.untouched hlow' f hf ht
    · cases e with
      | frame g =>
          obtain rfl := List.mem_singleton.mp hf
          intro hsid
          have hopen := (ha.2.2.2.1 (by simp [isStreamFrame, ht]) hsid).1
          omega
      | _ => cases hf
  · intro hlt
    by_cases hopen : sid < c.nextId
    · exact (h.serving hopen).step h.instep h.sound ha hvalid hparsed (hu hopen) hs
    · -- the id was taken in this step
      have hlow : c.nextId ≤ sid := Nat.le_of_not_lt hopen
      rcases hnext with hn | ⟨hn, args, rfl, rfl⟩
      · omega
      · have hold := h.odd
        obtain rfl : c.nextId = sid := by omega
        have hopens := Serving.opens h.instep h.live (bodySent_nil (h.untouched hlow))
          (h.ended_false hlow) args hlt
        exact (List.append_nil frames).symm ▸ hopens

end Tracked

end NeverFox.H2
