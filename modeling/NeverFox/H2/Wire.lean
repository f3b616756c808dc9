import NeverFox.H2.Peer
import NeverFox.Lib.Codec

namespace NeverFox.H2

variable {ε δ : Type}

-- RFC 9113: a length of three octets, the type, the flags, and an id without
-- its reserved bit.
def Frame.parse : Bytes → Option (Frame × Bytes)
  | l₂ :: l₁ :: l₀ :: code :: flags :: a :: b :: c :: d :: rest =>
      let length := l₂.toNat * 2 ^ 16 + l₁.toNat * 2 ^ 8 + l₀.toNat
      if length ≤ rest.length then
        some (⟨.ofCode code, flags, unpackU32 [a, b, c, d] % 2 ^ 31, rest.take length⟩, rest.drop length)
      else none
  | _ => none

def parseFrames (bytes : Bytes) : Option (List Frame) := Codec.parseAll Frame.parse bytes

-- A frame as the peer reads it.
def Frame.seen (f : Frame) : Frame := { f with sid := f.sid % 2 ^ 31 }

-- What went out of a write.
def Write.bytes (w : Write) : Bytes :=
  match w.cut with
  | none => w.frames.flatMap Frame.encode
  | some n => (w.frames.flatMap Frame.encode).take n

def Conn.wire (c : Conn ε δ) : Bytes := c.tp.log.flatMap Write.bytes

-- A request as it reached the server: the payloads of its DATA frames, and for
-- each of its frames whether END_STREAM was set on it.
structure Request where
  sid : Nat
  fields : List Header
  chunks : List Bytes := []
  ends : List Bool
  deriving DecidableEq

def Request.awaits (r : Request) (sid : Nat) : Bool := r.sid = sid && !r.ends.contains true

-- The server's end of a connection.
structure Server (δ : Type) where
  dec : δ
  pending : Option Block := none
  requests : List Request := []

namespace Server

def start (hp : Hpack ε δ) : Server δ := { dec := hp.decoder }

-- A complete header block opens its stream.
def offer (hp : Hpack ε δ) (s : Server δ) (block : Block) (complete : Bool) : Option (Server δ) :=
  if complete then
    match hp.decode s.dec block.fragment with
    | (dec, .ok fields) =>
        some { dec := dec, requests := s.requests ++ [⟨block.sid, fields, [], [block.endStream]⟩] }
    | (_, .error _) => none
  else some { s with pending := some block }

-- Nothing may come between the frames of a block, a new stream has an odd id
-- above all before it, and DATA goes to a stream that awaits it.
def receive (hp : Hpack ε δ) (s : Server δ) (f : Frame) : Option (Server δ) :=
  match s.pending, f.ftype with
  | none, .headers =>
      if f.sid % 2 = 1 ∧ ∀ r ∈ s.requests, r.sid < f.sid then
        s.offer hp ⟨f.sid, fragment f, f.endStream⟩ f.endHeaders
      else none
  | some block, .continuation =>
      if f.sid = block.sid then
        s.offer hp { block with fragment := block.fragment ++ f.payload } f.endHeaders
      else none
  | none, .data =>
      if s.requests.any fun r => r.awaits f.sid then
        some { s with requests := s.requests.map fun r =>
          if r.sid = f.sid then { r with chunks := r.chunks ++ [unpadded f], ends := r.ends ++ [f.endStream] }
          else r }
      else none
  | none, .continuation => none
  | none, _ => some s
  | some _, _ => none

end Server

theorem ofCode_code (t : FrameType) (ht : ∀ code, t ≠ .unknown code) : FrameType.ofCode t.code = t := by
  cases t with
  | unknown code => exact absurd rfl (ht code)
  | _ => rfl

-- The length field carries any length below 2^24, the id field any id but for
-- its reserved bit.
theorem length_octets {n : Nat} (hn : n < 2 ^ 24) :
    (UInt8.ofNat (n / 2 ^ 16)).toNat * 2 ^ 16 + (UInt8.ofNat (n / 2 ^ 8)).toNat * 2 ^ 8 +
      (UInt8.ofNat n).toNat = n := by
  simp only [UInt8.toNat_ofNat']
  omega

theorem unpackU32_packU32_mod (n : Nat) : unpackU32 (packU32 n) % 2 ^ 31 = n % 2 ^ 31 := by
  simp only [packU32, unpackU32, UInt8.toNat_ofNat']
  omega

-- Encoding is undone by the peer, up to the reserved bit.
theorem parse_encode (f : Frame) (ht : ∀ code, f.ftype ≠ .unknown code) (hlen : f.payload.length < 2 ^ 24)
    (rest : Bytes) : Frame.parse (f.encode ++ rest) = some (f.seen, rest) := by
  have hsid := unpackU32_packU32_mod f.sid
  simp only [packU32] at hsid
  simp only [Frame.encode, packU32, List.drop_succ_cons, List.drop_zero, List.cons_append,
    List.nil_append, Frame.parse, length_octets hlen, List.length_append, hsid, ofCode_code _ ht]
  rw [if_pos (Nat.le_add_right _ _), List.take_left, List.drop_left]
  rfl

theorem encode_ne_nil (f : Frame) : f.encode ≠ [] := by
  simp [Frame.encode, packU32]

theorem parse_sid {bytes rest : Bytes} {f : Frame} (h : Frame.parse bytes = some (f, rest)) :
    f.sid < 2 ^ 31 := by
  unfold Frame.parse at h
  split at h
  · obtain ⟨_, he⟩ := Option.ite_none_right_eq_some.mp h
    obtain ⟨rfl, _⟩ := Prod.mk.inj (Option.some.inj he)
    exact Nat.mod_lt _ (by decide)
  · cases h

-- The peer reads the frames of whole writes.
theorem parseFrames_flatMap {frames : List Frame}
    (h : ∀ f ∈ frames, (∀ code, f.ftype ≠ .unknown code) ∧ f.payload.length < 2 ^ 24) :
    parseFrames (frames.flatMap Frame.encode) = some (frames.map Frame.seen) :=
  Codec.parseAll_flatMap _ _ (fun f hf rest => parse_encode f (h f hf).1 (h f hf).2 rest)
    fun f _ => encode_ne_nil f

theorem wire_whole {c : Conn ε δ} (h : ∀ w ∈ c.tp.log, w.cut = none) :
    c.wire = (c.tp.log.flatMap Write.frames).flatMap Frame.encode := by
  unfold Conn.wire
  rw [List.flatMap_assoc]
  refine List.flatMap_congr fun w hw => ?_
  simp only [Write.bytes, h w hw]

namespace Server

variable {hp : Hpack ε δ}

-- No frame makes up a stream id.
theorem receive_sids {s s' : Server δ} {f : Frame} (hf : f.sid < 2 ^ 31)
    (hpending : ∀ block, s.pending = some block → block.sid < 2 ^ 31)
    (hsids : ∀ r ∈ s.requests, r.sid < 2 ^ 31) (h : s.receive hp f = some s') :
    (∀ block, s'.pending = some block → block.sid < 2 ^ 31) ∧ ∀ r ∈ s'.requests, r.sid < 2 ^ 31 := by
  have hoffer : ∀ (block : Block) complete, block.sid < 2 ^ 31 → s.offer hp block complete = some s' →
      (∀ block, s'.pending = some block → block.sid < 2 ^ 31) ∧ ∀ r ∈ s'.requests, r.sid < 2 ^ 31 := by
    intro block complete hb ho
    unfold offer at ho
    split at ho
    · split at ho
      · obtain rfl := Option.some.inj ho
        refine ⟨nofun, fun r hr => ?_⟩
        rcases List.mem_append.mp hr with hr | hr
        · exact hsids r hr
        · obtain rfl := List.mem_singleton.mp hr
          exact hb
      · cases ho
    · obtain rfl := Option.some.inj ho
      refine ⟨?_, hsids⟩
      rintro _ ⟨⟩
      exact hb
  unfold receive at h
  split at h
  · obtain ⟨_, ho⟩ := Option.ite_none_right_eq_some.mp h
    exact hoffer _ _ hf ho
  · rename_i block hb _
    obtain ⟨_, ho⟩ := Option.ite_none_right_eq_some.mp h
    exact hoffer { block with fragment := block.fragment ++ f.payload } _ (hpending block hb) ho
  · obtain ⟨_, ho⟩ := Option.ite_none_right_eq_some.mp h
    obtain rfl := Option.some.inj ho
    refine ⟨hpending, fun r hr => ?_⟩
    obtain ⟨r', hr', rfl⟩ := List.mem_map.mp hr
    have hsid := hsids r' hr'
    split <;> exact hsid
  · cases h
  · obtain rfl := Option.some.inj h
    exact ⟨hpending, hsids⟩
  · cases h

theorem foldlM_sids {frames : List Frame} (hframes : ∀ f ∈ frames, f.sid < 2 ^ 31) {s s' : Server δ}
    (hpending : ∀ block, s.pending = some block → block.sid < 2 ^ 31)
    (hsids : ∀ r ∈ s.requests, r.sid < 2 ^ 31) (h : frames.foldlM (receive hp) s = some s') :
    ∀ r ∈ s'.requests, r.sid < 2 ^ 31 := by
  induction frames generalizing s with
  | nil =>
      cases h
      exact hsids
  | cons f frames ih =>
      rw [List.foldlM_cons] at h
      obtain ⟨next, hs, hrest⟩ := Option.bind_eq_some_iff.mp h
      obtain ⟨hp', hs'⟩ := receive_sids (hframes f (by simp)) hpending hsids hs
      exact ih (fun g hg => hframes g (by simp [hg])) hp' hs' hrest

end Server

end NeverFox.H2
