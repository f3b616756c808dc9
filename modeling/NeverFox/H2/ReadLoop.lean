import NeverFox.H2.StreamCredit
import NeverFox.H2.Wire

namespace NeverFox.H2

variable {ε δ : Type}

-- What comes in on the socket: octets that arrive together, or a wait that
-- times out. Behind the last of these the stream has ended.
inductive Arrival
  | octets (first : UInt8) (more : Bytes)
  | timeout
  deriving DecidableEq

-- What fxtls_read returns.
inductive ReadResult
  | octets (data : Bytes)
  | timeout
  | closed

def Arrival.bytes : Arrival → Bytes
  | octets first more => first :: more
  | timeout => []

def bytesOf (input : List Arrival) : Bytes := input.flatMap Arrival.bytes

def putBack (left : Bytes) (rest : List Arrival) : List Arrival :=
  match left with
  | [] => rest
  | first :: more => .octets first more :: rest

-- At most as many octets as wanted are taken of those that have arrived.
def fxtlsRead (want : Nat) : List Arrival → ReadResult × List Arrival
  | [] => (.closed, [])
  | .timeout :: rest => (.timeout, rest)
  | .octets first more :: rest =>
      (.octets ((first :: more).take want), putBack ((first :: more).drop want) rest)

-- `Transport.recvn`. The loops count down a fuel that `none` says has run out.
def recvn (stop : Bool) (n : Nat) : Nat → Bytes → List Arrival → Option (Bytes × List Arrival)
  | 0, _, _ => none
  | fuel + 1, out, input =>
      if out.length < n then
        match fxtlsRead (min 65536 (n - out.length)) input with
        | (.timeout, rest) => if stop then some (out, rest) else recvn stop n fuel out rest
        | (.closed, rest) => some (out, rest)
        | (.octets data, rest) => recvn stop n fuel (out ++ data) rest
      else some (out, input)

-- Every read makes this smaller.
def weight (input : List Arrival) : Nat := (bytesOf input).length + input.length

def headerLength (hdr : Bytes) : Nat :=
  match hdr with
  | l₂ :: l₁ :: l₀ :: _ => l₂.toNat * 2 ^ 16 + l₁.toNat * 2 ^ 8 + l₀.toNat
  | _ => 0

def headerFrame (hdr payload : Bytes) : Frame :=
  ⟨.ofCode (hdr.getD 3 0), hdr.getD 4 0, unpackU32 (hdr.drop 5) % 2 ^ 31, payload⟩

namespace Conn

-- `_read_loop` up to the end of its `finally`.
def readLoop (hp : Hpack ε δ) : Nat → Conn ε δ → List Arrival → Option (Conn ε δ)
  | 0, _, _ => none
  | fuel + 1, c, input =>
      match recvn c.tp.stop 9 (weight input + 1) [] input with
      | none => none
      | some (hdr, input) =>
          if hdr.length < 9 then some (c.exitReader peerClosed)
          else
            match recvn c.tp.stop (headerLength hdr) (weight input + 1) [] input with
            | none => none
            | some (payload, input) =>
                if payload.length < headerLength hdr then some (c.exitReader peerClosed)
                else
                  match c.dispatch hp (headerFrame hdr payload) with
                  | (c, some exc) => some (c.exitReader exc)
                  | (c, none) => readLoop hp fuel c input

end Conn

-- Frames taken off the front of the octets, and what is left behind them.
inductive Taken : Bytes → List Frame → Bytes → Prop
  | stop (bytes : Bytes) : Taken bytes [] bytes
  | frame (bytes rest left : Bytes) (f : Frame) (frames : List Frame)
      (hp : Frame.parse bytes = some (f, rest)) (hr : Taken rest frames left) :
      Taken bytes (f :: frames) left

-- A response that is handed out, not an error.
def Stream.finished (st : Stream) : Prop := st.done = true ∧ st.error = none

theorem bytesOf_cons (a : Arrival) (input : List Arrival) : bytesOf (a :: input) = a.bytes ++ bytesOf input := rfl

theorem bytesOf_putBack (left : Bytes) (rest : List Arrival) :
    bytesOf (putBack left rest) = left ++ bytesOf rest := by
  cases left <;> rfl

theorem length_putBack (left : Bytes) (rest : List Arrival) : (putBack left rest).length ≤ rest.length + 1 := by
  cases left <;> simp [putBack]

-- The cases of a read, with what each does to the octets still to come.
theorem fxtlsRead_cases (want : Nat) (input : List Arrival) :
    (input = [] ∧ fxtlsRead want input = (.closed, [])) ∨
    (∃ rest, input = .timeout :: rest ∧ fxtlsRead want input = (.timeout, rest)) ∨
    ∃ data rest, fxtlsRead want input = (.octets data, rest) ∧ bytesOf input = data ++ bytesOf rest ∧
      rest.length ≤ input.length ∧ data.length ≤ want ∧ (0 < want → 0 < data.length) := by
  match input with
  | [] => exact .inl ⟨rfl, rfl⟩
  | .timeout :: rest => exact .inr (.inl ⟨rest, rfl, rfl⟩)
  | .octets first more :: rest =>
      refine .inr (.inr ⟨_, _, rfl, ?_, ?_, ?_, ?_⟩)
      · rw [bytesOf_putBack, ← List.append_assoc, List.take_append_drop]
        rfl
      · exact length_putBack _ _
      · exact List.length_take_le _ _
      · intro hwant
        rw [List.length_take, List.length_cons]
        omega

theorem recvn_spec (stop : Bool) (n fuel : Nat) (out : Bytes) (input : List Arrival) (hout : out.length ≤ n)
    (hf : weight input < fuel) :
    ∃ data rest, recvn stop n fuel out input = some (out ++ data, rest) ∧
      bytesOf input = data ++ bytesOf rest ∧ rest.length ≤ input.length ∧ (out ++ data).length ≤ n := by
  induction fuel generalizing out input with
  | zero => omega
  | succ fuel ih =>
      unfold recvn
      split
      · rename_i hlt
        rcases fxtlsRead_cases (min 65536 (n - out.length)) input with
          ⟨rfl, he⟩ | ⟨rest, rfl, he⟩ | ⟨data, rest, he, hbytes, hlen, hmax, hpos⟩ <;> rw [he] <;> dsimp only
        · exact ⟨[], [], by rw [List.append_nil], rfl, Nat.le_refl _, by rw [List.append_nil]; exact hout⟩
        · split
          · refine ⟨[], rest, by rw [List.append_nil], rfl, Nat.le_succ _, by rw [List.append_nil]; exact hout⟩
          · have hsmall : weight rest < fuel := by
              simp only [weight, bytesOf_cons, Arrival.bytes, List.nil_append, List.length_cons] at hf
              unfold weight
              omega
            obtain ⟨data, left, hr, hb, hl, hle⟩ := ih out rest hout hsmall
            exact ⟨data, left, hr, hb, Nat.le_succ_of_le hl, hle⟩
        · have hsmall : weight rest < fuel := by
            have hsum := congrArg List.length hbytes
            rw [List.length_append] at hsum
            unfold weight at hf ⊢
            omega
          obtain ⟨more, left, hr, hb, hl, hle⟩ := ih (out ++ data) rest (by
            rw [List.length_append]
            omega) hsmall
          refine ⟨data ++ more, left, ?_, ?_, Nat.le_trans hl hlen, ?_⟩
          · rw [hr, List.append_assoc]
          · rw [hbytes, hb, List.append_assoc]
          · rw [← List.append_assoc]
            exact hle
      · exact ⟨[], input, by rw [List.append_nil], rfl, Nat.le_refl _, by rw [List.append_nil]; exact hout⟩

-- A header and the payload it announces are one frame of the wire.
theorem parse_header {hdr payload : Bytes} (hh : hdr.length = 9) (hp : payload.length = headerLength hdr)
    (rest : Bytes) : Frame.parse (hdr ++ payload ++ rest) = some (headerFrame hdr payload, rest) := by
  match hdr, hh with
  | [l₂, l₁, l₀, code, flags, a, b, c, d], _ =>
      have hlen : payload.length = l₂.toNat * 2 ^ 16 + l₁.toNat * 2 ^ 8 + l₀.toNat := hp
      simp only [List.cons_append, List.nil_append, Frame.parse, List.length_append, ← hlen]
      rw [if_pos (Nat.le_add_right _ _), List.take_left, List.drop_left]
      rfl

theorem headerFrame_onWire {hdr payload : Bytes} (hp : payload.length = headerLength hdr) :
    (headerFrame hdr payload).onWire := by
  refine ⟨?_, Nat.mod_lt _ (by decide)⟩
  have hlt : headerLength hdr < 2 ^ 24 := by
    unfold headerLength
    split
    · rename_i l₂ l₁ l₀ tail
      have h₂ := l₂.toNat_lt
      have h₁ := l₁.toNat_lt
      have h₀ := l₀.toNat_lt
      omega
    · decide
  change payload.length < 2 ^ 24
  omega

-- The block under way in the connection is the one that is assembled.
def Listening (told : List Frame) (c : Conn ε δ) : Prop :=
  ∀ sid, c.hsid = some sid →
    ∃ block, (assembled told).pending = some block ∧ block.sid = sid ∧ block.endStream = c.hend

theorem finished_exitReader {c : Conn ε δ} {exc : Exn} {sid : Nat}
    (h : ((c.exitReader exc).obj sid).finished) : (c.obj sid).finished := by
  simp only [Conn.exitReader, Conn.failAll, Conn.failItems_eq, true_and] at h
  split at h
  · cases h.2
  · exact h

-- A block that is stored ends its stream only with END_STREAM on it.
theorem finishHeaders_open (hp : Hpack ε δ) {c : Conn ε δ} (hend : c.hend = false) (sid : Nat) :
    ((c.finishHeaders hp).1.obj sid).done = (c.obj sid).done ∧
      ((c.finishHeaders hp).1.obj sid).error = (c.obj sid).error := by
  unfold Conn.finishHeaders
  split
  · exact ⟨rfl, rfl⟩
  · rename_i owner _
    dsimp only
    split
    · exact ⟨rfl, rfl⟩
    · rename_i fields _
      obtain ⟨status, headers, hst⟩ := Conn.storeFields_kept (c.obj owner) fields
      simp only [hst, hend]
      split <;> by_cases hs : sid = owner <;> simp [Conn.modify, Conn.resetBlock, hs]

theorem finished_finishHeaders (hp : Hpack ε δ) {c : Conn ε δ} {sid : Nat}
    (h : ((c.finishHeaders hp).1.obj sid).finished) :
    (c.obj sid).finished ∨ c.hsid = some sid ∧ c.hend = true := by
  by_cases hs : c.hsid = some sid
  · cases hend : c.hend with
    | true => exact .inr ⟨hs, rfl⟩
    | false =>
        obtain ⟨hdone, herror⟩ := finishHeaders_open hp hend sid
        exact .inl ⟨hdone ▸ h.1, herror ▸ h.2⟩
  · rw [Conn.finishHeaders_other hp hs] at h
    exact .inl h

theorem finished_settleData {c : Conn ε δ} {f : Frame} {sid : Nat}
    (h : ((c.settleData f).obj sid).finished) : (c.obj sid).finished ∨ f.sid = sid ∧ f.endStream = true := by
  by_cases hs : sid = f.sid
  · subst hs
    unfold Conn.settleData at h
    dsimp only at h
    split at h
    · have herror := h.2
      simp [Conn.fail, Conn.modify] at herror
    · split at h
      · rename_i hend
        exact .inr ⟨rfl, hend⟩
      · exact .inl h
  · rw [Conn.settleData_other c f hs] at h
    exact .inl h

theorem finished_addChunk {c : Conn ε δ} {f : Frame} {sid : Nat}
    (h : ((c.addChunk f).obj sid).finished) : (c.obj sid).finished := by
  by_cases hs : sid = f.sid
  · subst hs
    simpa [Conn.addChunk, Conn.modify, Stream.finished] using h
  · rwa [Conn.addChunk_other c f hs] at h

theorem finished_onData {c : Conn ε δ} {f : Frame} {sid : Nat} (h : ((c.onData f).1.obj sid).finished) :
    (c.obj sid).finished ∨ f.sid = sid ∧ f.endStream = true := by
  rcases c.onData_cases f with ⟨_, he⟩ | ⟨_, ⟨_, he⟩ | ⟨_, _, he⟩ | ⟨exc, he⟩⟩ <;> rw [he] at h
  · exact .inl h
  · exact (finished_settleData h).imp_left finished_addChunk
  · exact (finished_settleData h).imp_left finished_addChunk
  · exact .inl (finished_addChunk h)

theorem finished_onGoaway {c : Conn ε δ} {f : Frame} {sid : Nat} (h : ((c.onGoaway f).obj sid).finished) :
    (c.obj sid).finished := by
  simp only [Conn.onGoaway, Conn.failItems_eq] at h
  split at h
  · cases h.2
  · exact h

theorem finished_onRst {c : Conn ε δ} {f : Frame} {sid : Nat} (h : ((c.onRst f).obj sid).finished) :
    (c.obj sid).finished := by
  by_cases hs : sid = f.sid
  · subst hs
    unfold Conn.onRst at h
    split at h
    · have herror := h.2
      simp [Conn.fail, Conn.modify] at herror
    · exact h
  · rwa [Conn.onRst_other c f hs] at h

-- A frame ends a stream without an error only by carrying END_STREAM for it.
theorem finished_dispatch (hp : Hpack ε δ) {c : Conn ε δ} {told : List Frame} (h : Listening told c)
    {f : Frame} {sid : Nat} (hfin : ((c.dispatch hp f).1.obj sid).finished) :
    (c.obj sid).finished ∨ ended sid (told ++ [f]) = true := by
  rw [ended_snoc]
  unfold Conn.dispatch at hfin
  cases ht : f.ftype with
  | headers =>
      simp only [ht, Conn.onHeaders] at hfin
      split at hfin
      · rename_i he
        rcases finished_finishHeaders hp hfin with hfin | ⟨hs, hend⟩
        · exact .inl hfin
        · dsimp only at hend
          exact .inr (by simp [Assembly.completes, ht, he, Option.some.inj hs, hend])
      · exact .inl hfin
  | continuation =>
      simp only [ht, Conn.onContinuation] at hfin
      split at hfin
      · rename_i he
        rcases finished_finishHeaders hp hfin with hfin | ⟨hs, hend⟩
        · exact .inl hfin
        · obtain ⟨block, hpend, hsid, hblock⟩ := h sid hs
          dsimp only at hend
          exact .inr (by simp [Assembly.completes, ht, he, hpend, hsid, hblock, hend])
      · exact .inl hfin
  | data =>
      simp only [ht] at hfin
      rcases finished_onData hfin with hfin | ⟨hs, hend⟩
      · exact .inl hfin
      · exact .inr (by simp [hs, hend])
  | settings =>
      simp only [ht, Conn.onSettings_obj] at hfin
      exact .inl hfin
  | ping =>
      simp only [ht, Conn.onPing_obj] at hfin
      exact .inl hfin
  | goaway =>
      simp only [ht] at hfin
      exact .inl (finished_onGoaway hfin)
  | rst =>
      simp only [ht] at hfin
      exact .inl (finished_onRst hfin)
  | windowUpdate =>
      simp only [ht] at hfin
      exact .inl hfin
  | unknown =>
      simp only [ht] at hfin
      exact .inl hfin

theorem hsid_finishHeaders (hp : Hpack ε δ) {c : Conn ε δ} (hn : (c.finishHeaders hp).2 = none) :
    (c.finishHeaders hp).1.hsid = none := by
  revert hn
  unfold Conn.finishHeaders
  split
  · exact fun _ => rfl
  · dsimp only
    split
    · exact fun hn => by cases hn
    · split
      · exact fun hn => by cases hn
      · exact fun _ => rfl

theorem listening_dispatch (hp : Hpack ε δ) {c : Conn ε δ} {told : List Frame} (h : Listening told c)
    {f : Frame} (hn : (c.dispatch hp f).2 = none) : Listening (told ++ [f]) (c.dispatch hp f).1 := by
  unfold Listening
  rw [assembled_snoc]
  by_cases hkind : f.ftype = .headers ∨ f.ftype = .continuation
  · rcases hkind with ht | ht
    · have hd : c.dispatch hp f = c.onHeaders hp f := by unfold Conn.dispatch; rw [ht]
      rw [hd] at hn ⊢
      unfold Conn.onHeaders at hn ⊢
      by_cases he : f.endHeaders = true
      · simp only [he, ↓reduceIte] at hn ⊢
        rw [hsid_finishHeaders hp hn]
        simp
      · simp [Assembly.receive, Assembly.offer, ht, he]
    · have hd : c.dispatch hp f = c.onContinuation hp f := by unfold Conn.dispatch; rw [ht]
      rw [hd] at hn ⊢
      unfold Conn.onContinuation at hn ⊢
      by_cases he : f.endHeaders = true
      · simp only [he, ↓reduceIte] at hn ⊢
        rw [hsid_finishHeaders hp hn]
        simp
      · simp only [he, Bool.false_eq_true, ↓reduceIte]
        intro sid hs
        obtain ⟨block, hpend, hsid, hblock⟩ := h sid hs
        refine ⟨{ block with fragment := block.fragment ++ f.payload }, ?_, hsid, hblock⟩
        simp [Assembly.receive, Assembly.offer, ht, he, hpend]
  · have hkept := HeadersKept.of_micros hkind (Conn.Micros.dispatch hp c f)
    have hsame : (assembled told).receive f = assembled told := by
      unfold Assembly.receive
      split
      · rename_i ht
        exact absurd (.inl ht) hkind
      · rename_i ht
        exact absurd (.inr ht) hkind
      · rfl
    rw [hsame, hkept.hsid, hkept.hend]
    exact h

theorem ended_append {sid : Nat} {told : List Frame} (h : ended sid told = true) (more : List Frame) :
    ended sid (told ++ more) = true := by
  induction more generalizing told with
  | nil => rwa [List.append_nil]
  | cons f more ih =>
      rw [List.append_cons]
      apply ih
      rw [ended_snoc, h, Bool.true_or]

-- Where the reader starts: no octet of the connection has been read.
structure Conn.Unread (c : Conn ε δ) : Prop where
  reading : c.reading = true
  block : c.hsid = none

-- How a reader ends that had heard the given frames before.
structure LoopEnds (hp : Hpack ε δ) (told : List Frame) (c : Conn ε δ) (bytes : Bytes) (frames : List Frame)
    (c' : Conn ε δ) : Prop where
  taken : ∃ left, Taken bytes frames left
  run : ∃ last, Transition.run (step hp) c (frames.map .frame ++ last) = some c'
  closed : c'.closed = true
  reading : c'.reading = false
  done : ∀ sid ∈ c.streams, (c'.obj sid).done = true
  finished : ∀ sid, (c'.obj sid).finished → (c.obj sid).finished ∨ ended sid (told ++ frames) = true

theorem LoopEnds.exit (hp : Hpack ε δ) (told : List Frame) {c : Conn ε δ} (hr : c.reading = true) (bytes : Bytes) :
    LoopEnds hp told c bytes [] (c.exitReader Conn.peerClosed) where
  taken := ⟨bytes, .stop bytes⟩
  run := ⟨[.eof], by simp [Transition.run, step, hr]⟩
  closed := Conn.closed_exitReader c _
  reading := rfl
  done sid hin := exitReader_done hin _
  finished sid hfin := .inl (finished_exitReader hfin)

-- One frame, and what the reader does from there.
theorem LoopEnds.frame {hp : Hpack ε δ} {told : List Frame} {c c' : Conn ε δ} {bytes rest : Bytes} {f : Frame}
    {frames : List Frame} (hr : c.reading = true) (hl : Listening told c) (hw : f.onWire)
    (hparse : Frame.parse bytes = some (f, rest)) (hn : (c.dispatch hp f).2 = none)
    (h : LoopEnds hp (told ++ [f]) (c.dispatch hp f).1 rest frames c') :
    LoopEnds hp told c bytes (f :: frames) c' where
  taken := by
    obtain ⟨left, ht⟩ := h.taken
    exact ⟨left, .frame bytes rest left f frames hparse ht⟩
  run := by
    obtain ⟨last, hrun⟩ := h.run
    refine ⟨last, Transition.run_cons_eq_some.mpr ⟨(c.dispatch hp f).1, ?_, hrun⟩⟩
    rcases c.readFrame_cases hp f with ⟨_, he⟩ | ⟨exc, hexc, _⟩
    · simp [step, hr, hw, he]
    · rw [hn] at hexc
      cases hexc
  closed := h.closed
  reading := h.reading
  done sid hin := h.done sid ((Conn.kept_dispatch hp c f).streams ▸ hin)
  finished sid hfin := by
    rw [List.append_cons]
    rcases h.finished sid hfin with hfin | hend
    · exact (finished_dispatch hp hl hfin).imp_right fun hend => ended_append hend frames
    · exact .inr hend

-- A frame whose dispatch raises is the last one.
theorem LoopEnds.raised {hp : Hpack ε δ} {told : List Frame} {c : Conn ε δ} {bytes rest : Bytes} {f : Frame}
    {exc : Exn} (hr : c.reading = true) (hl : Listening told c) (hw : f.onWire)
    (hparse : Frame.parse bytes = some (f, rest)) (hexc : (c.dispatch hp f).2 = some exc) :
    LoopEnds hp told c bytes [f] ((c.dispatch hp f).1.exitReader exc) where
  taken := ⟨rest, .frame bytes rest rest f [] hparse (.stop rest)⟩
  run := by
    refine ⟨[], Transition.run_cons_eq_some.mpr ⟨_, ?_, rfl⟩⟩
    rcases c.readFrame_cases hp f with ⟨hn, _⟩ | ⟨exc', hexc', he⟩
    · rw [hn] at hexc
      cases hexc
    · obtain rfl := Option.some.inj (hexc.symm.trans hexc')
      simp [step, hr, hw, he]
  closed := Conn.closed_exitReader _ _
  reading := rfl
  done sid hin := exitReader_done ((Conn.kept_dispatch hp c f).streams ▸ hin) exc
  finished sid hfin := finished_dispatch hp hl (finished_exitReader hfin)

theorem readLoop_settles (hp : Hpack ε δ) (told : List Frame) (c : Conn ε δ) (hr : c.reading = true)
    (hl : Listening told c) (input : List Arrival) :
    ∃ c' frames, (∀ fuel, weight input < fuel → c.readLoop hp fuel input = some c') ∧
      LoopEnds hp told c (bytesOf input) frames c' := by
  induction hw : weight input using Nat.strong_induction_on generalizing told c input with
  | _ size ih =>
      subst hw
      obtain ⟨hdr, input₁, hread₁, hbytes₁, hlen₁, hle₁⟩ := recvn_spec c.tp.stop 9 (weight input + 1) [] input
        (Nat.zero_le _) (Nat.lt_succ_self _)
      obtain ⟨payload, input₂, hread₂, hbytes₂, hlen₂, hle₂⟩ := recvn_spec c.tp.stop (headerLength hdr)
        (weight input₁ + 1) [] input₁ (Nat.zero_le _) (Nat.lt_succ_self _)
      rw [List.nil_append] at hread₁ hread₂ hle₁ hle₂
      have hloop : ∀ fuel, c.readLoop hp (fuel + 1) input =
          if hdr.length < 9 then some (c.exitReader Conn.peerClosed)
          else if payload.length < headerLength hdr then some (c.exitReader Conn.peerClosed)
          else (c.dispatch hp (headerFrame hdr payload)).2.elim
            ((c.dispatch hp (headerFrame hdr payload)).1.readLoop hp fuel input₂)
            (fun exc => some ((c.dispatch hp (headerFrame hdr payload)).1.exitReader exc)) := by
        intro fuel
        conv_lhs => unfold Conn.readLoop
        simp only [hread₁, hread₂]
        rcases c.dispatch hp (headerFrame hdr payload) with ⟨next, raised⟩
        cases raised <;> rfl
      by_cases hshort : hdr.length < 9 ∨ payload.length < headerLength hdr
      · refine ⟨c.exitReader Conn.peerClosed, [], ?_, .exit hp told hr _⟩
        intro fuel hf
        obtain ⟨fuel, rfl⟩ : ∃ n, fuel = n + 1 := ⟨fuel - 1, by omega⟩
        rw [hloop]
        rcases hshort with hs | hs
        · rw [if_pos hs]
        · rw [if_pos hs, ite_self]
      · obtain ⟨hh, hpay⟩ := not_or.mp hshort
        have hfull : payload.length = headerLength hdr := by omega
        have hparse : Frame.parse (bytesOf input) = some (headerFrame hdr payload, bytesOf input₂) := by
          rw [hbytes₁, hbytes₂, ← List.append_assoc]
          exact parse_header (by omega) hfull _
        have hwire : (headerFrame hdr payload).onWire := headerFrame_onWire hfull
        have hless : weight input₂ < weight input := by
          have hsum := congrArg List.length hbytes₁
          rw [hbytes₂, List.length_append, List.length_append] at hsum
          unfold weight
          omega
        cases hd : (c.dispatch hp (headerFrame hdr payload)).2 with
        | some exc =>
            refine ⟨_, _, ?_, .raised hr hl hwire hparse hd⟩
            intro fuel hf
            obtain ⟨fuel, rfl⟩ : ∃ n, fuel = n + 1 := ⟨fuel - 1, by omega⟩
            rw [hloop, if_neg hh, if_neg hpay, hd, Option.elim_some]
        | none =>
            obtain ⟨c', frames, hrest, hsettles⟩ := ih _ hless (told ++ [headerFrame hdr payload])
              (c.dispatch hp (headerFrame hdr payload)).1 ((Conn.kept_dispatch hp c _).reading.trans hr)
              (listening_dispatch hp hl hd) input₂ rfl
            refine ⟨c', _, ?_, hsettles.frame hr hl hwire hparse hd⟩
            intro fuel hf
            obtain ⟨fuel, rfl⟩ : ∃ n, fuel = n + 1 := ⟨fuel - 1, by omega⟩
            rw [hloop, if_neg hh, if_neg hpay, hd, Option.elim_none]
            exact hrest fuel (by omega)

-- Whatever octets come, in whatever pieces: the loop ends, the connection is
-- closed, every stream is done, and one without an error had its END_STREAM.
theorem read_loop_settles (hp : Hpack ε δ) {c : Conn ε δ} (hc : c.Unread) (input : List Arrival) :
    ∃ c' frames, (∀ fuel, weight input < fuel → c.readLoop hp fuel input = some c') ∧
      (∃ left, Taken (bytesOf input) frames left) ∧
      (∃ last, Transition.run (step hp) c (frames.map .frame ++ last) = some c') ∧
      c'.closed = true ∧ (∀ sid ∈ c.streams, (c'.obj sid).done = true) ∧
      ∀ sid, (c'.obj sid).finished → (c.obj sid).finished ∨ ended sid frames = true := by
  have hl : Listening [] c := by
    intro sid hs
    rw [hc.block] at hs
    cases hs
  obtain ⟨c', frames, hloop, h⟩ := readLoop_settles hp [] c hc.reading hl input
  exact ⟨c', frames, hloop, h.taken, h.run, h.closed, h.done, h.finished⟩

-- Half a frame header, a wait, and the rest of a response to stream 1, cut off
-- in the middle of the one to stream 3.
def brokenOff : List Arrival :=
  [.octets 0 [0, 1], .timeout, .octets 1 [5, 0], .octets 0 [0, 1, 0x88, 0, 0, 9, 0, 0, 0, 0, 0, 3, 7]]

theorem read_loop_settles_brokenOff :
    ∃ c', twoSent.readLoop staticCodec 30 brokenOff = some c' ∧ c'.closed = true ∧
      (c'.obj 1).done = true ∧ (c'.obj 3).done = true := by
  obtain ⟨c', frames, hloop, _, _, hclosed, hdone, _⟩ :=
    read_loop_settles staticCodec (c := twoSent) ⟨rfl, rfl⟩ brokenOff
  exact ⟨c', hloop 30 (by decide), hclosed, hdone 1 (by decide), hdone 3 (by decide)⟩

end NeverFox.H2
