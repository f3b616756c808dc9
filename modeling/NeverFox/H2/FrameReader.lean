import NeverFox.H2.ReadLoop

namespace NeverFox.H2

variable {ε δ : Type}

-- A frame `_frame` can be given: its type is an octet, its length and its id
-- fit their fields.
structure Frame.Fits (f : Frame) : Prop where
  octet : ∃ code, f.ftype = .ofCode code
  length : f.payload.length < 2 ^ 24
  sid : f.sid < 2 ^ 31

-- A frame that the stream ends in, or nothing at all.
def CutOff (cut : Bytes) : Prop := ∃ f : Frame, f.Fits ∧ ∃ k < f.encode.length, cut = f.encode.take k

namespace Conn

-- `_read_loop` with the frames that it calls `_dispatch` on.
def readCalls (hp : Hpack ε δ) : Nat → Conn ε δ → List Arrival → Option (List Frame × Conn ε δ)
  | 0, _, _ => none
  | fuel + 1, c, input =>
      match recvn c.tp.stop 9 (weight input + 1) [] input with
      | none => none
      | some (hdr, input) =>
          if hdr.length < 9 then some ([], c.exitReader peerClosed)
          else
            match recvn c.tp.stop (headerLength hdr) (weight input + 1) [] input with
            | none => none
            | some (payload, input) =>
                if payload.length < headerLength hdr then some ([], c.exitReader peerClosed)
                else
                  match c.dispatch hp (headerFrame hdr payload) with
                  | (c, some exc) => some ([headerFrame hdr payload], c.exitReader exc)
                  | (c, none) =>
                      (readCalls hp fuel c input).map fun (calls, c) => (headerFrame hdr payload :: calls, c)

-- What the loop is for: one frame after the other, until one raises or there are no more.
def dispatchAll (hp : Hpack ε δ) : Conn ε δ → List Frame → List Frame × Conn ε δ
  | c, [] => ([], c.exitReader peerClosed)
  | c, f :: frames =>
      match c.dispatch hp f with
      | (c, some exc) => ([f], c.exitReader exc)
      | (c, none) => (f :: (dispatchAll hp c frames).1, (dispatchAll hp c frames).2)

-- None of the frames makes `_dispatch` raise.
def Untroubled (hp : Hpack ε δ) : Conn ε δ → List Frame → Prop
  | _, [] => True
  | c, f :: frames => (c.dispatch hp f).2 = none ∧ Untroubled hp (c.dispatch hp f).1 frames

theorem readCalls_readLoop (hp : Hpack ε δ) (fuel : Nat) (c : Conn ε δ) (input : List Arrival) :
    (c.readCalls hp fuel input).map Prod.snd = c.readLoop hp fuel input := by
  induction fuel generalizing c input with
  | zero => rfl
  | succ fuel ih =>
      unfold readCalls readLoop
      rcases recvn c.tp.stop 9 (weight input + 1) [] input with _ | ⟨hdr, input₁⟩
      · rfl
      by_cases hshort : hdr.length < 9
      · simp only [hshort, ↓reduceIte, Option.map_some]
      simp only [hshort, ↓reduceIte]
      rcases recvn c.tp.stop (headerLength hdr) (weight input₁ + 1) [] input₁ with _ | ⟨payload, input₂⟩
      · rfl
      by_cases hpay : payload.length < headerLength hdr
      · simp only [hpay, ↓reduceIte, Option.map_some]
      simp only [hpay, ↓reduceIte]
      rcases c.dispatch hp (headerFrame hdr payload) with ⟨c', _ | exc⟩
      · simp only [Option.map_map, ← ih]
        rfl
      · rfl

theorem dispatchAll_untroubled (hp : Hpack ε δ) {c : Conn ε δ} {frames : List Frame}
    (h : c.Untroubled hp frames) : (c.dispatchAll hp frames).1 = frames := by
  induction frames generalizing c with
  | nil => rfl
  | cons f frames ih =>
      obtain ⟨hn, hrest⟩ := h
      unfold dispatchAll
      split
      · rename_i exc hd
        rw [hd] at hn
        cases hn
      · rename_i c' hd
        rw [hd] at hrest
        rw [ih hrest]

end Conn

theorem fxtlsRead_quiet {want : Nat} {input : List Arrival} (h : .timeout ∉ input) :
    .timeout ∉ (fxtlsRead want input).2 := by
  match input with
  | [] => exact h
  | .timeout :: rest => exact absurd (List.mem_cons_self ..) h
  | .octets first more :: rest =>
      rw [List.mem_cons, not_or] at h
      show .timeout ∉ putBack ((first :: more).drop want) rest
      unfold putBack
      split
      · exact h.2
      · simp only [List.mem_cons, not_or]
        exact ⟨by simp, h.2⟩

-- Unless a timeout may stop it, a read takes as much as it asked for, or all
-- there is, in whatever pieces that comes.
theorem recvn_takes {stop : Bool} {n fuel : Nat} {out : Bytes} {input : List Arrival}
    (hstop : stop = true → .timeout ∉ input) (hout : out.length ≤ n) (hf : weight input < fuel) :
    ∃ rest, recvn stop n fuel out input = some (out ++ (bytesOf input).take (n - out.length), rest) ∧
      bytesOf rest = (bytesOf input).drop (n - out.length) ∧ rest.length ≤ input.length ∧
      (.timeout ∉ input → .timeout ∉ rest) := by
  induction fuel generalizing out input with
  | zero => omega
  | succ fuel ih =>
      unfold recvn
      by_cases hlt : out.length < n
      · rw [if_pos hlt]
        have hquiet := @fxtlsRead_quiet (min 65536 (n - out.length)) input
        rcases fxtlsRead_cases (min 65536 (n - out.length)) input with
          ⟨rfl, he⟩ | ⟨rest, rfl, he⟩ | ⟨data, rest, he, hbytes, hlen, hmax, hpos⟩ <;>
          rw [he] at hquiet ⊢ <;> dsimp only at hquiet ⊢
        · exact ⟨[], by simp [bytesOf], by simp [bytesOf], Nat.le_refl _, id⟩
        · have hgo : stop = false := by
            by_contra hs
            exact hstop (Bool.eq_true_of_not_eq_false hs) (List.mem_cons_self ..)
          have hsmall : weight rest < fuel := by
            simp only [weight, bytesOf_cons, Arrival.bytes, List.nil_append, List.length_cons] at hf
            unfold weight
            omega
          obtain ⟨left, hr, hb, hl, _⟩ := ih (fun hs => by rw [hgo] at hs; cases hs) hout hsmall
          rw [hgo, if_neg Bool.false_ne_true]
          rw [hgo] at hr
          exact ⟨left, hr, hb, Nat.le_succ_of_le hl, fun h => absurd (List.mem_cons_self ..) h⟩
        · have hsmall : weight rest < fuel := by
            have hsum := congrArg List.length hbytes
            rw [List.length_append] at hsum
            unfold weight at hf ⊢
            omega
          have hroom : (out ++ data).length ≤ n := by
            rw [List.length_append]
            omega
          obtain ⟨left, hr, hb, hl, hq⟩ := ih (fun hs => hquiet (hstop hs)) hroom hsmall
          have hrest : n - (out ++ data).length = n - out.length - data.length := by
            rw [List.length_append]
            omega
          rw [hrest] at hr hb
          have hdata : data.length ≤ n - out.length := by omega
          refine ⟨left, ?_, ?_, Nat.le_trans hl hlen, fun h => hq (hquiet h)⟩
          · rw [hr, hbytes, List.take_append, List.take_of_length_le hdata, List.append_assoc]
          · rw [hb, hbytes, List.drop_append, List.drop_of_length_le hdata, List.nil_append]
      · rw [if_neg hlt]
        have hnone : n - out.length = 0 := by omega
        rw [hnone]
        exact ⟨input, by simp, by simp, Nat.le_refl _, id⟩

theorem recvn_fresh {stop : Bool} (n : Nat) {input : List Arrival} (hstop : stop = true → .timeout ∉ input) :
    ∃ rest, recvn stop n (weight input + 1) [] input = some ((bytesOf input).take n, rest) ∧
      bytesOf rest = (bytesOf input).drop n ∧ rest.length ≤ input.length ∧
      (.timeout ∉ input → .timeout ∉ rest) :=
  recvn_takes hstop (Nat.zero_le n) (Nat.lt_succ_self _)

namespace Frame

-- The nine octets that `_frame` puts in front of the payload.
def header (f : Frame) : Bytes :=
  (packU32 f.payload.length).drop 1 ++ [f.ftype.code, f.flags] ++ packU32 f.sid

theorem encode_eq (f : Frame) : f.encode = f.header ++ f.payload := rfl

@[simp] theorem header_length (f : Frame) : f.header.length = 9 := rfl

theorem ofCode_code_ofCode (code : UInt8) : FrameType.ofCode (FrameType.ofCode code).code = .ofCode code := by
  by_cases hcode : ∃ other, FrameType.ofCode code = .unknown other
  · obtain ⟨other, ho⟩ := hcode
    have hsame : other = code := by
      unfold FrameType.ofCode at ho
      grind
    rw [hsame] at ho
    rw [ho]
    exact ho
  · exact ofCode_code _ fun other ho => hcode ⟨other, ho⟩

-- The shifts and the mask of the reader undo the packing.
theorem headerLength_header {f : Frame} (hf : f.Fits) : headerLength f.header = f.payload.length := by
  simp only [header, packU32, List.drop_succ_cons, List.drop_zero, List.cons_append,
    List.nil_append, headerLength]
  exact length_octets hf.length

theorem headerFrame_header {f : Frame} (hf : f.Fits) : headerFrame f.header f.payload = f := by
  obtain ⟨code, hcode⟩ := hf.octet
  have htype : FrameType.ofCode f.ftype.code = f.ftype := by
    rw [hcode]
    exact ofCode_code_ofCode code
  have hsid : unpackU32 (packU32 f.sid) % 2 ^ 31 = f.sid := by
    rw [unpackU32_packU32_mod, Nat.mod_eq_of_lt hf.sid]
  show Frame.mk (.ofCode f.ftype.code) f.flags (unpackU32 (packU32 f.sid) % 2 ^ 31) f.payload = f
  rw [htype, hsid]

end Frame

namespace Conn

variable (hp : Hpack ε δ) (c : Conn ε δ)

-- With a whole frame at the front the loop dispatches it and goes on behind it.
theorem readCalls_frame (hstop : c.tp.stop = false) {f : Frame} (hf : f.Fits) {more : Bytes}
    {input : List Arrival} (hinput : bytesOf input = f.encode ++ more) :
    ∃ rest, bytesOf rest = more ∧ weight rest < weight input ∧ ∀ fuel, c.readCalls hp (fuel + 1) input =
      match c.dispatch hp f with
      | (c, some exc) => some ([f], c.exitReader exc)
      | (c, none) => (c.readCalls hp fuel rest).map fun (calls, c) => (f :: calls, c) := by
  have hgo : c.tp.stop = true → .timeout ∉ input := fun hs => by rw [hstop] at hs; cases hs
  obtain ⟨input₁, hread₁, hbytes₁, hlen₁, hquiet₁⟩ := recvn_fresh 9 hgo
  obtain ⟨rest, hread₂, hbytes₂, hlen₂, _⟩ := recvn_fresh f.payload.length fun hs => hquiet₁ (hgo hs)
  -- the first read is the header, the second the payload
  have hheader : (bytesOf input).take 9 = f.header ∧ (bytesOf input).drop 9 = f.payload ++ more := by
    rw [hinput, f.encode_eq, List.append_assoc, ← f.header_length]
    exact ⟨List.take_left, List.drop_left⟩
  rw [hheader.1] at hread₁
  rw [hheader.2] at hbytes₁
  rw [hbytes₁, List.take_left] at hread₂
  rw [hbytes₁, List.drop_left] at hbytes₂
  refine ⟨rest, hbytes₂, ?_, fun fuel => ?_⟩
  · have hsum : (bytesOf input).length = 9 + f.payload.length + (bytesOf rest).length := by
      rw [hinput, hbytes₂, f.encode_eq, List.length_append, List.length_append, f.header_length]
    unfold weight
    omega
  · conv_lhs => unfold readCalls
    simp only [hread₁, f.headerLength_header hf, hread₂, f.headerFrame_header hf, f.header_length,
      Nat.lt_irrefl, ↓reduceIte]

-- With less than a frame left it ends without a call.
theorem readCalls_cut (hstop : c.tp.stop = false) {input : List Arrival} (hcut : CutOff (bytesOf input))
    (fuel : Nat) : c.readCalls hp (fuel + 1) input = some ([], c.exitReader peerClosed) := by
  obtain ⟨f, hf, k, hk, hbytes⟩ := hcut
  have hgo : c.tp.stop = true → .timeout ∉ input := fun hs => by rw [hstop] at hs; cases hs
  obtain ⟨input₁, hread₁, hbytes₁, _, hquiet₁⟩ := recvn_fresh 9 hgo
  obtain ⟨rest, hread₂, _⟩ := recvn_fresh f.payload.length fun hs => hquiet₁ (hgo hs)
  rw [f.encode_eq, List.length_append, f.header_length] at hk
  unfold readCalls
  rw [hread₁]
  dsimp only
  by_cases hshort : k < 9
  · have hlen : ((bytesOf input).take 9).length < 9 := by
      rw [hbytes, List.length_take, List.length_take]
      omega
    rw [if_pos hlen]
  · -- the header is there, and the payload falls short of what it says
    have hheader : (bytesOf input).take 9 = f.header := by
      rw [hbytes, f.encode_eq, List.take_take, Nat.min_eq_left (by omega), ← f.header_length, List.take_left]
    have hpayload : (bytesOf input₁).length < f.payload.length := by
      rw [hbytes₁, hbytes, List.length_drop, List.length_take]
      omega
    rw [hheader, f.header_length, if_neg (Nat.lt_irrefl 9), f.headerLength_header hf, hread₂]
    dsimp only
    rw [List.take_of_length_le (Nat.le_of_lt hpayload), if_pos hpayload]

end Conn

-- The loop hears the frames that were written, however the octets are cut into
-- reads and whatever waits time out, and nothing of a frame that is cut off.
theorem frames_dispatched (hp : Hpack ε δ) {c : Conn ε δ} (hstop : c.tp.stop = false) {frames : List Frame}
    (hframes : ∀ f ∈ frames, f.Fits) {cut : Bytes} (hcut : CutOff cut) {input : List Arrival}
    (hinput : bytesOf input = frames.flatMap Frame.encode ++ cut) {fuel : Nat} (hfuel : weight input < fuel) :
    c.readCalls hp fuel input = some (c.dispatchAll hp frames) ∧
      c.readLoop hp fuel input = some (c.dispatchAll hp frames).2 ∧
      (c.Untroubled hp frames → (c.dispatchAll hp frames).1 = frames) := by
  have hcalls : c.readCalls hp fuel input = some (c.dispatchAll hp frames) := by
    induction frames generalizing c input fuel with
    | nil =>
        obtain ⟨fuel, rfl⟩ : ∃ n, fuel = n + 1 := ⟨fuel - 1, by omega⟩
        rw [List.flatMap_nil, List.nil_append] at hinput
        exact c.readCalls_cut hp hstop (hinput ▸ hcut) fuel
    | cons f frames ih =>
        obtain ⟨fuel, rfl⟩ : ∃ n, fuel = n + 1 := ⟨fuel - 1, by omega⟩
        rw [List.flatMap_cons, List.append_assoc] at hinput
        obtain ⟨rest, hrest, hless, hstep⟩ :=
          c.readCalls_frame hp hstop (hframes f (List.mem_cons_self ..)) hinput
        have hkept := (Conn.kept_dispatch hp c f).stop
        rw [hstep]
        unfold Conn.dispatchAll
        rcases hd : c.dispatch hp f with ⟨c', _ | exc⟩
        · rw [hd] at hkept
          dsimp only
          rw [ih (hkept.trans hstop) (fun g hg => hframes g (List.mem_cons_of_mem _ hg)) hrest (by omega)]
          rfl
        · rfl
  refine ⟨hcalls, ?_, Conn.dispatchAll_untroubled hp⟩
  rw [← Conn.readCalls_readLoop, hcalls, Option.map_some]

-- The block of a response, and ten octets of a DATA frame that announces nine more.
theorem frames_dispatched_brokenOff :
    (twoSent.readCalls staticCodec 30 brokenOff).map Prod.fst = some [⟨.headers, 5, 1, [0x88]⟩] := by
  have hcut : CutOff [0, 0, 9, 0, 0, 0, 0, 0, 3, 7] :=
    ⟨⟨.data, 0, 3, [7, 7, 7, 7, 7, 7, 7, 7, 7]⟩, ⟨⟨0, rfl⟩, by decide, by decide⟩, 10, by decide, rfl⟩
  have hfits : ∀ f ∈ [(⟨.headers, 5, 1, [0x88]⟩ : Frame)], f.Fits := by
    intro f hf
    obtain rfl := List.mem_singleton.mp hf
    exact ⟨⟨1, rfl⟩, by decide, by decide⟩
  obtain ⟨hcalls, _, hall⟩ :=
    @frames_dispatched _ _ staticCodec twoSent rfl _ hfits _ hcut brokenOff rfl 30 (by decide)
  rw [hcalls, Option.map_some, hall ⟨rfl, trivial⟩]

-- A SETTINGS frame of one octet, on which `_dispatch` raises, and a PING behind it.
def tornSettings : List Frame := [⟨.settings, 0, 0, [0]⟩, ⟨.ping, 0, 0, [0, 1, 2, 3, 4, 5, 6, 7]⟩]

def tornArrival : List Arrival :=
  [.octets 0 [0, 1, 4, 0, 0, 0, 0, 0, 0], .octets 0 [0, 8, 6, 0, 0, 0, 0, 0, 0, 1, 2, 3, 4, 5, 6, 7]]

theorem torn_settings_end_the_loop :
    twoSent.tp.stop = false ∧ (∀ f ∈ tornSettings, f.Fits) ∧
      bytesOf tornArrival = tornSettings.flatMap Frame.encode ∧
      (twoSent.readCalls staticCodec 40 tornArrival).map Prod.fst = some [⟨.settings, 0, 0, [0]⟩] ∧
      (twoSent.readCalls staticCodec 40 tornArrival).map Prod.fst ≠ some tornSettings := by
  refine ⟨rfl, ?_, rfl, ?_, ?_⟩
  · intro f hf
    rcases List.mem_cons.mp hf with rfl | hf
    · exact ⟨⟨4, rfl⟩, by decide, by decide⟩
    · obtain rfl := List.mem_singleton.mp hf
      exact ⟨⟨6, rfl⟩, by decide, by decide⟩
  · decide
  · decide

end NeverFox.H2
