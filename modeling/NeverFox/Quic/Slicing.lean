import Mathlib.Data.List.Infix
import Mathlib.Data.List.TakeWhile
import NeverFox.Quic.Protection

namespace NeverFox.Quic

-- An integer in so many octets, the high one first.
def bigEndian : Nat → Nat → Bytes
  | 0, _ => []
  | octets + 1, v => bigEndian octets (v / 256) ++ [UInt8.ofNat v]

-- The variable-length integers of RFC 9000: the two high bits say in how many
-- octets they stand.
def varint (v : Nat) : Bytes :=
  if v < 2 ^ 6 then bigEndian 1 v
  else if v < 2 ^ 14 then bigEndian 2 (2 ^ 14 + v)
  else if v < 2 ^ 30 then bigEndian 4 (2 ^ 31 + v)
  else bigEndian 8 (2 ^ 63 + 2 ^ 62 + v)

structure CryptoFrame where
  offset : Nat
  data : Bytes
  deriving DecidableEq

namespace CryptoFrame

-- The type of the frame, the offset, the length and the data.
def wire (f : CryptoFrame) : Bytes := varint 6 ++ varint f.offset ++ varint f.data.length ++ f.data

def Covers (f : CryptoFrame) (i : Nat) : Prop := f.offset ≤ i ∧ i < f.offset + f.data.length

end CryptoFrame

-- What the code calls of packet::Builder and of Encoder. `encodeFrame` is
-- encode_frame of FrameType::Crypto.
structure PacketBuilder (B : Type) where
  limit : B → Nat
  remaining : B → Nat
  varintLen : Nat → Nat
  encodeVarint : Nat → B → B
  encodeVvec : Bytes → B → B
  encodeFrame : (B → B) → B → B

structure CryptoRecoveryToken where
  space : PacketNumberSpace
  offset : Nat
  length : Nat
  deriving DecidableEq

-- What the code calls of the buffer to send from.
structure TxBuffer (Tx : Type) where
  nextBytes : Tx → Option (Nat × Bytes)
  markAsSent : Tx → Nat → Nat → Tx

section WriteFrame

variable {Tx B : Type} (buffer : TxBuffer Tx) (packet : PacketBuilder B) (findSni : Bytes → Option Span)
  (space : PacketNumberSpace) (sniSlicing : Bool)

-- write_chunk
def writeChunk (offset : Nat) (data : Bytes) (builder : B) : Option (Nat × Nat) × B :=
  let headerLen := 1 + packet.varintLen offset + 1
  if packet.remaining builder < headerLen + 1 then (none, builder)
  else
    let length := min data.length (packet.remaining builder - headerLen)
    let headerLen := headerLen + (packet.varintLen length - 1)
    let length := min data.length (packet.remaining builder - headerLen)
    let write := fun b => packet.encodeVvec (data.take length) (packet.encodeVarint offset b)
    (some (offset, length), packet.encodeFrame write builder)

-- slice::split_at, with none where it panics.
def splitAt (data : Bytes) (mid : Nat) : Option (Bytes × Bytes) :=
  if mid ≤ data.length then some (data.take mid, data.drop mid) else none

-- limit_chunks
def limitChunks (left right : Nat × Bytes) (limit : Nat) : Option ((Nat × Bytes) × (Nat × Bytes)) :=
  if left.2.length + right.2.length ≤ limit then some (left, right)
  else if left.2.length ≤ limit then
    let rightLen := right.2.length + left.2.length - limit
    (splitAt right.2 rightLen).map fun halves => (left, (right.1 + rightLen, halves.2))
  else if right.2.length ≤ limit then
    (splitAt left.2 (limit - right.2.length)).map fun halves => ((left.1, halves.1), right)
  else do
    let lefts ← splitAt left.2 (limit / 2)
    let rights ← splitAt right.2 (limit / 2)
    return ((left.1, lefts.1), (right.1, rights.1))

-- The share of one packet, of as many as the data needs. There is none where
-- `div_ceil` panics.
def packetShare (length limit : Nat) : Option Nat :=
  if limit = 0 then none else some (length / ((length + limit - 1) / limit))

def midpoint (sni : Span) : Nat := sni.start + (sni.stop - sni.start) / 2

-- The data cut in two at the midpoint of the name, for one packet.
def sliced (offset : Nat) (data : Bytes) (sni : Span) (limit : Nat) :
    Option ((Nat × Bytes) × (Nat × Bytes)) :=
  (splitAt data (midpoint sni)).bind fun halves =>
    (packetShare data.length limit).bind
      (limitChunks (offset, halves.1) (offset + midpoint sni, halves.2))

-- The chunks that one round of the loop writes: with the name of the server
-- found, the right one first.
def written (offset : Nat) (data : Bytes) (builder : B) :
    Option (Option (Nat × Nat) × Option (Nat × Nat) × B) :=
  let whole := writeChunk packet offset data builder
  if sniSlicing ∧ offset = 0 then
    match findSni data with
    | none => some (whole.1, none, whole.2)
    | some sni =>
      (sliced offset data sni (packet.limit builder)).map fun chunks =>
        let first := writeChunk packet chunks.2.1 chunks.2.2 builder
        let second := writeChunk packet chunks.1.1 chunks.1.2 first.2
        (first.1, second.1, second.2)
  else some (whole.1, none, whole.2)

-- What the loop changes.
structure Writing (Tx B : Type) where
  tx : Tx
  builder : B
  tokens : List CryptoRecoveryToken
  crypto : Nat

-- mark_as_sent
def Writing.markAsSent (w : Writing Tx B) (chunk : Nat × Nat) : Writing Tx B :=
  { w with
    tx := buffer.markAsSent w.tx chunk.1 chunk.2
    tokens := w.tokens ++ [⟨space, chunk.1, chunk.2⟩]
    crypto := w.crypto + 1 }

-- The loop of `write_frame`. None where it panics or needs more rounds.
def writeFrames : Nat → Writing Tx B → Option (Writing Tx B)
  | 0, _ => none
  | rounds + 1, w =>
    match buffer.nextBytes w.tx with
    | none => some w
    | some (offset, data) =>
      match written packet findSni sniSlicing offset data w.builder with
      | none => none
      | some (first, second, builder) =>
        let w := { w with builder := builder }
        match first, second with
        | none, none => some w
        | none, some chunk | some chunk, none => writeFrames rounds (w.markAsSent buffer space chunk)
        | some chunk, some chunk' => some ((w.markAsSent buffer space chunk).markAsSent buffer space chunk')

end WriteFrame

-- The streams of the spaces that are not discarded, by what they have to send.
inductive CryptoStreams (Tx : Type)
  | initial (initial handshake application : Tx)
  | handshake (handshake application : Tx)
  | applicationData (application : Tx)

namespace CryptoStreams

variable {Tx B : Type}

def get : CryptoStreams Tx → PacketNumberSpace → Option Tx
  | .initial i _ _, .initial => some i
  | .initial _ h _, .handshake => some h
  | .initial _ _ a, .applicationData => some a
  | .handshake _ _, .initial => none
  | .handshake h _, .handshake => some h
  | .handshake _ a, .applicationData => some a
  | .applicationData _, .initial => none
  | .applicationData _, .handshake => none
  | .applicationData a, .applicationData => some a

def put : CryptoStreams Tx → PacketNumberSpace → Tx → CryptoStreams Tx
  | .initial _ h a, .initial, tx => .initial tx h a
  | .initial i _ a, .handshake, tx => .initial i tx a
  | .initial i h _, .applicationData, tx => .initial i h tx
  | .handshake h a, .initial, _ => .handshake h a
  | .handshake _ a, .handshake, tx => .handshake tx a
  | .handshake h _, .applicationData, tx => .handshake h tx
  | .applicationData a, .initial, _ => .applicationData a
  | .applicationData a, .handshake, _ => .applicationData a
  | .applicationData _, .applicationData, tx => .applicationData tx

-- No round is made without three octets less of room.
def writeFrame (buffer : TxBuffer Tx) (packet : PacketBuilder B) (findSni : Bytes → Option Span)
    (streams : CryptoStreams Tx) (space : PacketNumberSpace) (sniSlicing : Bool) (builder : B)
    (tokens : List CryptoRecoveryToken) (crypto : Nat) :
    Option (CryptoStreams Tx × B × List CryptoRecoveryToken × Nat) :=
  match streams.get space with
  | none => some (streams, builder, tokens, crypto)
  | some tx =>
    (writeFrames buffer packet findSni space sniSlicing (packet.remaining builder + 1)
      ⟨tx, builder, tokens, crypto⟩).map fun w => (streams.put space w.tx, w.builder, w.tokens, w.crypto)

end CryptoStreams

@[simp] theorem bigEndian_length (octets v : Nat) : (bigEndian octets v).length = octets := by
  induction octets generalizing v with
  | zero => rfl
  | succ octets ih => rw [bigEndian, List.length_append, ih, List.length_singleton]

theorem varint_length (v : Nat) :
    (varint v).length = if v < 64 then 1 else if v < 16384 then 2 else if v < 1073741824 then 4 else 8 := by
  unfold varint
  split_ifs <;> first | exact bigEndian_length _ _ | omega

theorem varint_length_le {n : Nat} (h : 0 < n) : (varint n).length ≤ n := by
  rw [varint_length]
  split_ifs <;> omega

theorem varint_length_pos (n : Nat) : 0 < (varint n).length := by
  rw [varint_length]
  split_ifs <;> omega

theorem varint_length_mono {m n : Nat} (h : m ≤ n) : (varint m).length ≤ (varint n).length := by
  rw [varint_length, varint_length]
  split_ifs <;> omega

theorem CryptoFrame.wire_length (f : CryptoFrame) :
    f.wire.length = 1 + (varint f.offset).length + (varint f.data.length).length + f.data.length := by
  simp only [CryptoFrame.wire, List.length_append]
  rfl

theorem CryptoFrame.wire_length_ge (f : CryptoFrame) : 3 ≤ f.wire.length := by
  have hoffset := varint_length_pos f.offset
  have hlength := varint_length_pos f.data.length
  rw [f.wire_length]
  omega

namespace PacketBuilder

variable {B : Type}

-- Octets written behind those of the packet so far.
def Writes (packet : PacketBuilder B) (octets : B → Bytes) (builder : B) (new : Bytes)
    (builder' : B) : Prop :=
  octets builder' = octets builder ++ new ∧ packet.limit builder' = packet.limit builder

-- What the code relies on of the builder, by the octets of the packet so far.
-- An integer of more than 62 bits has no encoding.
structure Lawful (packet : PacketBuilder B) (octets : B → Bytes) : Prop where
  remaining : ∀ builder, packet.remaining builder = packet.limit builder - (octets builder).length
  varint_len : ∀ v < 2 ^ 62, packet.varintLen v = (varint v).length
  encode_varint : ∀ v < 2 ^ 62, ∀ builder,
    packet.Writes octets builder (varint v) (packet.encodeVarint v builder)
  encode_vvec : ∀ data builder, data.length < 2 ^ 62 →
    packet.Writes octets builder (varint data.length ++ data) (packet.encodeVvec data builder)
  encode_frame : ∀ content builder, ∃ builder', packet.Writes octets builder (varint 6) builder' ∧
    packet.encodeFrame content builder = content builder'

variable {packet : PacketBuilder B} {octets : B → Bytes} {builder builder' builder'' : B} {new new' : Bytes}

namespace Writes

theorem trans (h : packet.Writes octets builder new builder')
    (h' : packet.Writes octets builder' new' builder'') :
    packet.Writes octets builder (new ++ new') builder'' :=
  ⟨by rw [h'.1, h.1, List.append_assoc], h'.2.trans h.2⟩

theorem remaining (hpacket : packet.Lawful octets) (h : packet.Writes octets builder new builder')
    (hroom : new.length ≤ packet.remaining builder) :
    packet.remaining builder' + new.length = packet.remaining builder := by
  rw [hpacket.remaining] at hroom ⊢
  rw [hpacket.remaining, h.1, h.2, List.length_append]
  omega

end Writes

theorem Lawful.writes_frame (hpacket : packet.Lawful octets) {offset : Nat} {data : Bytes}
    (hshort : offset + data.length < 2 ^ 62) (builder : B) :
    packet.Writes octets builder (CryptoFrame.wire ⟨offset, data⟩)
      (packet.encodeFrame (fun b => packet.encodeVvec data (packet.encodeVarint offset b)) builder) := by
  obtain ⟨builder', htype, hframe⟩ := hpacket.encode_frame
    (fun b => packet.encodeVvec data (packet.encodeVarint offset b)) builder
  rw [hframe]
  have hoffset := htype.trans (hpacket.encode_varint offset (by omega) builder')
  have hdata := hoffset.trans (hpacket.encode_vvec data _ (by omega))
  rw [← List.append_assoc] at hdata
  exact hdata

end PacketBuilder

section Chunks

variable {B : Type} {packet : PacketBuilder B} {octets : B → Bytes} {builder : B}

-- A chunk is left out where there is no room for its header and an octet, and
-- else goes into a frame, as far as it fits.
theorem writeChunk_cases (hpacket : packet.Lawful octets) {offset : Nat} {data : Bytes}
    (hshort : offset + data.length < 2 ^ 62) (builder : B) :
    (writeChunk packet offset data builder = (none, builder) ∧
      packet.remaining builder < (varint offset).length + 3) ∨
    (∃ n builder', writeChunk packet offset data builder = (some (offset, n), builder') ∧
      packet.Writes octets builder (CryptoFrame.wire ⟨offset, data.take n⟩) builder' ∧
      n ≤ data.length ∧ (data ≠ [] → 0 < n) ∧
      (CryptoFrame.wire ⟨offset, data.take n⟩).length ≤ packet.remaining builder) := by
  unfold writeChunk
  rw [hpacket.varint_len offset (by omega)]
  dsimp only
  split
  · next hroom => exact .inl ⟨rfl, by omega⟩
  · next hroom =>
    right
    rw [hpacket.varint_len (min data.length _) (by omega)]
    generalize hl : min data.length (packet.remaining builder - (1 + (varint offset).length + 1)) = l
    have hpos := varint_length_pos l
    -- The longer length field takes no more than the data has room for.
    have hfield : (varint l).length - 1 ≤ l - 1 := by
      cases Nat.eq_zero_or_pos l with
      | inl hzero => rw [hzero]; decide
      | inr hl0 => exact Nat.sub_le_sub_right (varint_length_le hl0) 1
    have htaken := List.length_take_le (min data.length
      (packet.remaining builder - (1 + (varint offset).length + 1 + ((varint l).length - 1)))) data
    refine ⟨_, _, rfl, hpacket.writes_frame (by omega) builder, Nat.min_le_left _ _, fun hne => ?_, ?_⟩
    · have := List.length_pos_of_ne_nil hne
      omega
    · rw [CryptoFrame.wire_length]
      dsimp only
      rw [List.length_take, Nat.min_eq_left (Nat.min_le_left _ _)]
      have hmono := varint_length_mono (show min data.length (packet.remaining builder -
        (1 + (varint offset).length + 1 + ((varint l).length - 1))) ≤ l by omega)
      omega

theorem writeChunk_room (hpacket : packet.Lawful octets) {offset : Nat} {data : Bytes} {builder' : B}
    {sent : Option (Nat × Nat)} (hshort : offset + data.length < 2 ^ 62)
    (hwrite : writeChunk packet offset data builder = (sent, builder')) :
    (sent = none ∧ builder' = builder ∧ packet.remaining builder < (varint offset).length + 3) ∨
    (sent ≠ none ∧ packet.limit builder' = packet.limit builder ∧
      packet.remaining builder' + 3 ≤ packet.remaining builder) := by
  obtain ⟨hnone, hroom⟩ | ⟨n, b, hsome, hwrites, _, _, hroom⟩ := writeChunk_cases hpacket hshort builder
  · rw [hnone] at hwrite
    obtain ⟨rfl, rfl⟩ := Prod.mk.inj hwrite
    exact .inl ⟨rfl, rfl, hroom⟩
  · rw [hsome] at hwrite
    obtain ⟨rfl, rfl⟩ := Prod.mk.inj hwrite
    have hlen := CryptoFrame.wire_length_ge ⟨offset, data.take n⟩
    have hused := hwrites.remaining hpacket hroom
    exact .inr ⟨Option.some_ne_none _, hwrites.2, by omega⟩

theorem writeChunk_full (hpacket : packet.Lawful octets) (hroom : packet.remaining builder < 4)
    {offset : Nat} {data : Bytes} (hshort : offset + data.length < 2 ^ 62) :
    writeChunk packet offset data builder = (none, builder) := by
  have hpos := varint_length_pos offset
  unfold writeChunk
  rw [hpacket.varint_len offset (by omega)]
  exact if_pos (by omega)

end Chunks

-- A chunk of a stream, between two of its offsets.
structure Within (stream : Bytes) (lo hi : Nat) (chunk : Nat × Bytes) : Prop where
  data : chunk.2 <+: stream.drop chunk.1
  lower : lo ≤ chunk.1
  upper : chunk.1 + chunk.2.length ≤ hi

namespace Within

variable {stream : Bytes} {lo mid hi : Nat} {offset : Nat} {data : Bytes}

theorem take (h : Within stream lo hi (offset, data)) (n : Nat) :
    Within stream lo hi (offset, data.take n) where
  data := (List.take_prefix n data).trans h.data
  lower := h.lower
  upper := by
    have hlen := List.length_take_le' n data
    have hupper := h.upper
    dsimp only at hupper ⊢
    omega

theorem drop (h : Within stream lo hi (offset, data)) {n : Nat} (hn : n ≤ data.length) :
    Within stream (lo + n) hi (offset + n, data.drop n) where
  data := by
    have hdrop := h.data.drop n
    rw [List.drop_drop] at hdrop
    exact hdrop
  lower := Nat.add_le_add_right h.lower n
  upper := by
    have hupper := h.upper
    simp only [List.length_drop] at hupper ⊢
    omega

theorem mono (h : Within stream lo hi (offset, data)) {lo' hi' : Nat} (hlo : lo' ≤ lo) (hhi : hi ≤ hi') :
    Within stream lo' hi' (offset, data) :=
  ⟨h.data, Nat.le_trans hlo h.lower, Nat.le_trans h.upper hhi⟩

end Within

variable {stream : Bytes} {lo mid hi offset limit : Nat} {data : Bytes}

-- The chunks stay on their sides of the midpoint, and share the limit. No point
-- they are split at is out of range.
theorem limitChunks_within {left right : Nat × Bytes} (hleft : Within stream lo mid left)
    (hright : Within stream mid hi right) (limit : Nat) :
    ∃ left' right', limitChunks left right limit = some (left', right') ∧ Within stream lo mid left' ∧
      Within stream mid hi right' ∧ left'.1 = left.1 ∧ left'.2.length + right'.2.length ≤ limit := by
  obtain ⟨l, left⟩ := left
  obtain ⟨r, right⟩ := right
  unfold limitChunks splitAt
  dsimp only
  split
  · next hboth => exact ⟨_, _, rfl, hleft, hright, rfl, hboth⟩
  · split
    · next hle =>
      rw [if_pos (by omega)]
      refine ⟨_, _, rfl, hleft, (hright.drop (by omega)).mono (by omega) (Nat.le_refl _), rfl, ?_⟩
      simp only [List.length_drop]
      omega
    · split
      · next hle =>
        rw [if_pos (by omega)]
        refine ⟨_, _, rfl, hleft.take _, hright, rfl, ?_⟩
        simp only [List.length_take]
        omega
      · rw [if_pos (by omega), if_pos (by omega)]
        refine ⟨_, _, rfl, hleft.take _, hright.take _, rfl, ?_⟩
        simp only [List.length_take]
        omega

theorem sliced_within (h : Within stream offset hi (offset, data)) {sni : Span} (hspan : sni.start ≤ sni.stop)
    (hstop : sni.stop ≤ data.length) (hlimit : 0 < limit) :
    ∃ left right, sliced offset data sni limit = some (left, right) ∧
      Within stream offset (offset + midpoint sni) left ∧ Within stream (offset + midpoint sni) hi right ∧
      left.1 = offset := by
  have hmid : midpoint sni ≤ data.length := by
    unfold midpoint
    omega
  have hleft : Within stream offset (offset + midpoint sni) (offset, data.take (midpoint sni)) := by
    refine ⟨(h.take _).data, Nat.le_refl _, ?_⟩
    simp only [List.length_take]
    omega
  unfold sliced splitAt packetShare
  rw [if_pos hmid, if_neg (by omega)]
  obtain ⟨left, right, hchunks, hl, hr, hfirst, _⟩ := limitChunks_within hleft (h.drop hmid)
    (data.length / ((data.length + limit - 1) / limit))
  exact ⟨left, right, hchunks, hl, hr, hfirst⟩

section Loop

variable {Tx B : Type} {buffer : TxBuffer Tx} {stream : Tx → Bytes} {unsent : Tx → Nat → Prop}
  {packet : PacketBuilder B} {octets : B → Bytes} {findSni : Bytes → Option Span} {space : PacketNumberSpace}
  {w w' w'' : Writing Tx B}

-- What the code relies on of the buffer, by the whole stream that it was given
-- and the offsets that are not sent (any more).
structure TxBuffer.Lawful (buffer : TxBuffer Tx) (stream : Tx → Bytes) (unsent : Tx → Nat → Prop) : Prop where
  next_data : ∀ {tx offset data}, buffer.nextBytes tx = some (offset, data) →
    data ≠ [] ∧ data <+: (stream tx).drop offset
  next_unsent : ∀ {tx offset data}, buffer.nextBytes tx = some (offset, data) →
    ∀ i, offset ≤ i → i < offset + data.length → unsent tx i
  mark_stream : ∀ tx offset length, stream (buffer.markAsSent tx offset length) = stream tx
  mark_unsent : ∀ tx offset length i, unsent (buffer.markAsSent tx offset length) i ↔
    unsent tx i ∧ ¬(offset ≤ i ∧ i < offset + length)

theorem TxBuffer.Lawful.next_within (hlaw : buffer.Lawful stream unsent) {tx : Tx}
    (hnext : buffer.nextBytes tx = some (offset, data)) :
    Within (stream tx) offset (offset + data.length) (offset, data) ∧
      offset + data.length ≤ (stream tx).length := by
  obtain ⟨hne, hdata⟩ := hlaw.next_data hnext
  refine ⟨⟨hdata, Nat.le_refl _, Nat.le_refl _⟩, ?_⟩
  have hpos := List.length_pos_of_ne_nil hne
  have hlen := hdata.length_le
  rw [List.length_drop] at hlen
  omega

-- The frames between two states of the loop, and what they carry: parts of the
-- stream that were not sent, each octet in one frame.
structure Sends (packet : PacketBuilder B) (octets : B → Bytes) (stream : Tx → Bytes)
    (unsent : Tx → Nat → Prop) (space : PacketNumberSpace) (w : Writing Tx B) (new : List CryptoFrame)
    (w' : Writing Tx B) : Prop where
  frames : packet.Writes octets w.builder (new.flatMap CryptoFrame.wire) w'.builder
  fits : (octets w.builder).length ≤ packet.limit w.builder →
    (octets w'.builder).length ≤ packet.limit w.builder
  tokens : w'.tokens = w.tokens ++ new.map fun f => ⟨space, f.offset, f.data.length⟩
  crypto : w'.crypto = w.crypto + new.length
  sameStream : stream w'.tx = stream w.tx
  carried : ∀ f ∈ new, f.data <+: (stream w.tx).drop f.offset
  fresh : ∀ f ∈ new, ∀ i, f.Covers i → unsent w.tx i
  unsent : ∀ i, unsent w'.tx i ↔ unsent w.tx i ∧ ∀ f ∈ new, ¬f.Covers i
  disjoint : new.Pairwise fun f g => ∀ i, ¬(f.Covers i ∧ g.Covers i)

namespace Sends

variable {new new' : List CryptoFrame}

theorem refl (w : Writing Tx B) : Sends packet octets stream unsent space w [] w where
  frames := ⟨(List.append_nil _).symm, rfl⟩
  fits h := h
  tokens := (List.append_nil _).symm
  crypto := rfl
  sameStream := rfl
  carried _ hf := nomatch hf
  fresh _ hf := nomatch hf
  unsent _ := ⟨fun h => ⟨h, fun _ hf => nomatch hf⟩, fun h => h.1⟩
  disjoint := .nil

theorem trans (h : Sends packet octets stream unsent space w new w')
    (h' : Sends packet octets stream unsent space w' new' w'') :
    Sends packet octets stream unsent space w (new ++ new') w'' where
  frames := by
    rw [List.flatMap_append]
    exact h.frames.trans h'.frames
  fits hle := by
    have hfits := h'.fits
    rw [h.frames.2] at hfits
    exact hfits (h.fits hle)
  tokens := by rw [h'.tokens, h.tokens, List.map_append, List.append_assoc]
  crypto := by rw [h'.crypto, h.crypto, List.length_append, Nat.add_assoc]
  sameStream := h'.sameStream.trans h.sameStream
  carried f hf := by
    cases List.mem_append.mp hf with
    | inl hf => exact h.carried f hf
    | inr hf => exact h.sameStream ▸ h'.carried f hf
  fresh f hf i hi := by
    cases List.mem_append.mp hf with
    | inl hf => exact h.fresh f hf i hi
    | inr hf => exact ((h.unsent i).mp (h'.fresh f hf i hi)).1
  unsent i := by
    rw [h'.unsent, h.unsent, and_assoc, List.forall_mem_append]
  disjoint := by
    refine List.pairwise_append.mpr ⟨h.disjoint, h'.disjoint, fun f hf g hg i hi => ?_⟩
    exact ((h.unsent i).mp (h'.fresh g hg i hi.2)).2 f hf hi.1

end Sends

-- One chunk of the stream that is not sent, written and marked.
theorem sends_chunk (hpacket : packet.Lawful octets) (hlaw : buffer.Lawful stream unsent)
    {chunk : Nat × Bytes} {sent : Nat × Nat} {builder : B} {hi : Nat}
    (hchunk : Within (stream w.tx) offset hi chunk) (hshort : hi < 2 ^ 62)
    (hunsent : ∀ i, chunk.1 ≤ i → i < chunk.1 + chunk.2.length → unsent w.tx i)
    (hwrite : writeChunk packet chunk.1 chunk.2 w.builder = (some sent, builder)) :
    ∃ f, Sends packet octets stream unsent space w [f]
        ({ w with builder := builder }.markAsSent buffer space sent) ∧
      Within (stream w.tx) offset hi (f.offset, f.data) := by
  obtain ⟨o, data⟩ := chunk
  obtain ⟨hnone, _⟩ | ⟨n, b, hsome, hwrites, hn, _, hroom⟩ :=
    writeChunk_cases hpacket (Nat.lt_of_le_of_lt hchunk.upper hshort) w.builder
  · rw [hnone] at hwrite
    cases hwrite
  · rw [hsome] at hwrite
    obtain ⟨hsent, rfl⟩ := Prod.mk.inj hwrite
    obtain rfl := Option.some.inj hsent
    have hlen : (data.take n).length = n := by rw [List.length_take]; exact Nat.min_eq_left hn
    have hcovers : ∀ i, CryptoFrame.Covers ⟨o, data.take n⟩ i ↔ o ≤ i ∧ i < o + n := by
      intro i
      unfold CryptoFrame.Covers
      rw [hlen]
    refine ⟨⟨o, data.take n⟩, ?_, hchunk.take n⟩
    constructor
    case frames =>
      rw [List.flatMap_singleton]
      exact hwrites
    case fits =>
      intro hle
      show (octets b).length ≤ packet.limit w.builder
      rw [hpacket.remaining] at hroom
      rw [hwrites.1, List.length_append]
      omega
    case tokens => simp only [Writing.markAsSent, List.map_cons, List.map_nil, hlen]
    case crypto => rfl
    case sameStream => exact hlaw.mark_stream _ _ _
    case carried =>
      intro f hf
      obtain rfl := List.mem_singleton.mp hf
      exact (hchunk.take n).data
    case fresh =>
      intro f hf i hi
      obtain rfl := List.mem_singleton.mp hf
      obtain ⟨hlo, hup⟩ := (hcovers i).mp hi
      exact hunsent i hlo (Nat.lt_of_lt_of_le hup (Nat.add_le_add_left hn o))
    case unsent =>
      intro i
      simp only [Writing.markAsSent, hlaw.mark_unsent, List.forall_mem_singleton, hcovers]
    case disjoint => exact List.pairwise_singleton _ _

def marked (buffer : TxBuffer Tx) (space : PacketNumberSpace) (w : Writing Tx B) (sent : Option (Nat × Nat)) :
    Writing Tx B :=
  sent.elim w (w.markAsSent buffer space)

-- A chunk that is written, or does not fit.
theorem sends_marked (hpacket : packet.Lawful octets) (hlaw : buffer.Lawful stream unsent)
    {chunk : Nat × Bytes} {sent : Option (Nat × Nat)} {builder : B} {hi : Nat}
    (hchunk : Within (stream w.tx) offset hi chunk) (hshort : hi < 2 ^ 62)
    (hunsent : ∀ i, offset ≤ i → i < hi → unsent w.tx i)
    (hwrite : writeChunk packet chunk.1 chunk.2 w.builder = (sent, builder)) :
    ∃ new, Sends packet octets stream unsent space w new
        (marked buffer space { w with builder := builder } sent) ∧
      ∀ f ∈ new, Within (stream w.tx) offset hi (f.offset, f.data) := by
  cases sent with
  | none =>
      obtain ⟨_, rfl, _⟩ | ⟨hne, _⟩ :=
        writeChunk_room hpacket (Nat.lt_of_le_of_lt hchunk.upper hshort) hwrite
      · exact ⟨[], .refl w, fun _ hf => nomatch hf⟩
      · exact absurd rfl hne
  | some sent =>
      obtain ⟨f, hsends, hwithin⟩ := sends_chunk hpacket hlaw hchunk hshort
        (fun i hlo hup =>
          hunsent i (Nat.le_trans hchunk.lower hlo) (Nat.lt_of_lt_of_le hup hchunk.upper)) hwrite
      refine ⟨[f], hsends, fun g hg => ?_⟩
      obtain rfl := List.mem_singleton.mp hg
      exact hwithin

-- The two chunks of a round that slices: the right one is written first.
theorem sends_sliced (space : PacketNumberSpace) (hpacket : packet.Lawful octets)
    (hlaw : buffer.Lawful stream unsent) {mid hi : Nat} {left right : Nat × Bytes}
    (hleft : Within (stream w.tx) offset mid left) (hright : Within (stream w.tx) mid hi right)
    (hshort : hi < 2 ^ 62) (hunsent : ∀ i, offset ≤ i → i < hi → unsent w.tx i)
    {first second : Option (Nat × Nat)} {b builder : B}
    (hfirst : writeChunk packet right.1 right.2 w.builder = (first, b))
    (hsecond : writeChunk packet left.1 left.2 b = (second, builder)) :
    ∃ new, Sends packet octets stream unsent space w new
        (marked buffer space (marked buffer space { w with builder := builder } first) second) ∧
      ∀ f ∈ new, f.offset + f.data.length ≤ mid ∨ mid ≤ f.offset := by
  have hlo := Nat.le_trans hleft.lower (Nat.le_trans (Nat.le_add_right _ _) hleft.upper)
  have hhi := Nat.le_trans hright.lower (Nat.le_trans (Nat.le_add_right _ _) hright.upper)
  obtain ⟨new, hsends, hwithin⟩ := sends_marked hpacket hlaw hright hshort
    (fun i hi' => hunsent i (Nat.le_trans hlo hi')) hfirst
  have hsame : ∀ c : B, { marked buffer space { w with builder := b } first with builder := c } =
      marked buffer space { w with builder := c } first := by
    intro c
    cases first with
    | none => rfl
    | some sent => rfl
  have hbuilder : (marked buffer space { w with builder := b } first).builder = b := by
    rw [← hsame b]
  rw [← hbuilder] at hsecond
  obtain ⟨new', hsends', hwithin'⟩ := sends_marked hpacket hlaw (hsends.sameStream ▸ hleft)
    (Nat.lt_of_le_of_lt hhi hshort)
    (fun i hlo' hup => (hsends.unsent i).mpr ⟨hunsent i hlo' (Nat.lt_of_lt_of_le hup hhi), fun f hf hi' =>
      Nat.not_lt.mpr (hwithin f hf).lower (Nat.lt_of_le_of_lt hi'.1 hup)⟩) hsecond
  rw [hsame] at hsends'
  refine ⟨new ++ new', hsends.trans hsends', fun f hf => ?_⟩
  cases List.mem_append.mp hf with
  | inl hf => exact .inr (hwithin f hf).lower
  | inr hf => exact .inl (hwithin' f hf).upper

-- Where one of the two does not fit, nothing more fits behind them.
theorem sliced_room (hpacket : packet.Lawful octets) {left right : Nat × Bytes}
    {first second : Option (Nat × Nat)} {b builder : B} (hleft : left.1 = 0)
    (hlen : left.2.length < 2 ^ 62) (hright : right.1 + right.2.length < 1073741824)
    (hfirst : writeChunk packet right.1 right.2 w.builder = (first, b))
    (hsecond : writeChunk packet left.1 left.2 b = (second, builder)) (hone : first = none ∨ second = none) :
    packet.remaining builder < 4 := by
  have hzero : (varint left.1).length = 1 := by rw [hleft]; rfl
  have hfour : (varint right.1).length ≤ 4 := by rw [varint_length]; split_ifs <;> omega
  obtain ⟨rfl, rfl, hroom⟩ | ⟨hne, _, hroom⟩ := writeChunk_room hpacket (by omega) hfirst
  · obtain ⟨_, rfl, hroom'⟩ | ⟨_, _, hroom'⟩ := writeChunk_room hpacket (by omega) hsecond
    · omega
    · omega
  · obtain ⟨_, rfl, hroom'⟩ | ⟨hne', _, _⟩ := writeChunk_room hpacket (by omega) hsecond
    · omega
    · cases hone with
      | inl hnone => exact absurd hnone hne
      | inr hnone => exact absurd hnone hne'

-- What the name's place in the data has to be for the cut.
def SniInside (findSni : Bytes → Option Span) : Prop :=
  ∀ data sni, findSni data = some sni → sni.start ≤ sni.stop ∧ sni.stop ≤ data.length

-- A packet that is full stays as it is.
theorem writeFrames_full (hpacket : packet.Lawful octets) (hlaw : buffer.Lawful stream unsent)
    (hsni : SniInside findSni) {sniSlicing : Bool} {rounds : Nat} (hlimit : 0 < packet.limit w.builder)
    (hshort : (stream w.tx).length < 2 ^ 62) (hroom : packet.remaining w.builder < 4)
    (h : writeFrames buffer packet findSni space sniSlicing rounds w = some w') : w' = w := by
  cases rounds with
  | zero => cases h
  | succ rounds =>
      unfold writeFrames at h
      split at h
      · exact (Option.some.inj h).symm
      · next offset data hnext =>
        obtain ⟨hwithin, hend⟩ := hlaw.next_within hnext
        have hwhole := writeChunk_full hpacket hroom (Nat.lt_of_le_of_lt hend hshort)
        have hwritten : written packet findSni sniSlicing offset data w.builder =
            some (none, none, w.builder) := by
          unfold written
          simp only [hwhole]
          split
          · split
            · rfl
            · next sni hfound =>
              obtain ⟨hspan, hstop⟩ := hsni data sni hfound
              obtain ⟨left, right, hsliced, hleft, hright, _⟩ := sliced_within hwithin hspan hstop hlimit
              have hupper := hleft.upper
              have hupper' := hright.upper
              have hlower := hright.lower
              rw [hsliced, Option.map_some]
              have hright' : right.1 + right.2.length < 2 ^ 62 := by omega
              have hleft' : left.1 + left.2.length < 2 ^ 62 := by omega
              simp only [writeChunk_full hpacket hroom hright', writeChunk_full hpacket hroom hleft']
          · rfl
        rw [hwritten] at h
        exact (Option.some.inj h).symm

-- One round, whether it slices or not.
theorem round_sends (hpacket : packet.Lawful octets) (hlaw : buffer.Lawful stream unsent)
    (hsni : SniInside findSni) (sniSlicing : Bool) (hlimit : 0 < packet.limit w.builder)
    (hshort : (stream w.tx).length < 2 ^ 62) (hnext : buffer.nextBytes w.tx = some (offset, data)) :
    ∃ first second builder new,
      written packet findSni sniSlicing offset data w.builder = some (first, second, builder) ∧
      Sends packet octets stream unsent space w new
        (marked buffer space (marked buffer space { w with builder := builder } first) second) ∧
      (first ≠ none ∨ second ≠ none → packet.remaining builder + 3 ≤ packet.remaining w.builder) := by
  obtain ⟨hwithin, hend⟩ := hlaw.next_within hnext
  have hunsent := hlaw.next_unsent hnext
  have hshort' : offset + data.length < 2 ^ 62 := Nat.lt_of_le_of_lt hend hshort
  obtain ⟨sent, b, hwrite⟩ : ∃ sent b, writeChunk packet offset data w.builder = (sent, b) :=
    ⟨_, _, Prod.mk.eta.symm⟩
  have hwhole : ∃ first second builder new, some (sent, none, b) = some (first, second, builder) ∧
      Sends packet octets stream unsent space w new
        (marked buffer space (marked buffer space { w with builder := builder } first) second) ∧
      (first ≠ none ∨ second ≠ none → packet.remaining builder + 3 ≤ packet.remaining w.builder) := by
    obtain ⟨new, hsends, _⟩ := sends_marked hpacket hlaw hwithin hshort' hunsent hwrite
    refine ⟨sent, none, b, new, rfl, hsends, fun hsome => ?_⟩
    obtain ⟨hnone, _⟩ | ⟨_, _, hle⟩ := writeChunk_room hpacket hshort' hwrite
    · cases hsome with
      | inl hne => exact absurd hnone hne
      | inr hne => exact absurd rfl hne
    · exact hle
  unfold written
  simp only [hwrite]
  split
  · split
    · exact hwhole
    · next sni hfound =>
      obtain ⟨hspan, hstop⟩ := hsni data sni hfound
      obtain ⟨left, right, hsliced, hleft, hright, _⟩ := sliced_within hwithin hspan hstop hlimit
      obtain ⟨first, b, hfirst⟩ : ∃ first b, writeChunk packet right.1 right.2 w.builder = (first, b) :=
        ⟨_, _, Prod.mk.eta.symm⟩
      obtain ⟨second, builder, hsecond⟩ : ∃ second builder,
          writeChunk packet left.1 left.2 b = (second, builder) :=
        ⟨_, _, Prod.mk.eta.symm⟩
      rw [hsliced, Option.map_some]
      simp only [hfirst, hsecond]
      obtain ⟨new, hsends, _⟩ :=
        sends_sliced space hpacket hlaw hleft hright hshort' hunsent hfirst hsecond
      refine ⟨first, second, builder, new, rfl, hsends, fun hsome => ?_⟩
      have hupper := hleft.upper
      have hupper' := hright.upper
      have hlower := hright.lower
      obtain ⟨hnone, rfl, _⟩ | ⟨_, _, hle⟩ := writeChunk_room hpacket (by omega) hfirst
      · obtain ⟨hnone', _⟩ | ⟨_, _, hle'⟩ := writeChunk_room hpacket (by omega) hsecond
        · cases hsome with
          | inl hne => exact absurd hnone hne
          | inr hne => exact absurd hnone' hne
        · exact hle'
      · obtain ⟨_, rfl, _⟩ | ⟨_, _, hle'⟩ := writeChunk_room hpacket (by omega) hsecond
        · exact hle
        · omega
  · exact hwhole

-- Any number of rounds above the room is enough.
theorem writeFrames_sends (hpacket : packet.Lawful octets) (hlaw : buffer.Lawful stream unsent)
    (hsni : SniInside findSni) (sniSlicing : Bool) (rounds : Nat) (hlimit : 0 < packet.limit w.builder)
    (hshort : (stream w.tx).length < 2 ^ 62) (hrounds : packet.remaining w.builder < rounds) :
    ∃ w' new, writeFrames buffer packet findSni space sniSlicing rounds w = some w' ∧
      Sends packet octets stream unsent space w new w' := by
  induction rounds generalizing w with
  | zero => exact absurd hrounds (Nat.not_lt_zero _)
  | succ rounds ih =>
      unfold writeFrames
      split
      · exact ⟨w, [], rfl, .refl w⟩
      · next offset data hnext =>
        obtain ⟨first, second, builder, new, hwritten, hsends, hroom⟩ :=
          round_sends hpacket hlaw hsni sniSlicing hlimit hshort hnext
        rw [hwritten]
        dsimp only
        have hagain : ∀ chunk, first ≠ none ∨ second ≠ none →
            Sends packet octets stream unsent space w new
              ({ w with builder := builder }.markAsSent buffer space chunk) →
            ∃ w' new, writeFrames buffer packet findSni space sniSlicing rounds
                ({ w with builder := builder }.markAsSent buffer space chunk) = some w' ∧
              Sends packet octets stream unsent space w new w' := by
          intro chunk hsome hsends
          obtain ⟨w', new', hw', hsends'⟩ := ih
            (w := { w with builder := builder }.markAsSent buffer space chunk)
            (by rw [hsends.frames.2]; exact hlimit)
            (by rw [hsends.sameStream]; exact hshort)
            (by have := hroom hsome; show packet.remaining builder < rounds; omega)
          exact ⟨w', new ++ new', hw', hsends.trans hsends'⟩
        cases first with
        | none =>
            cases second with
            | none => exact ⟨_, new, rfl, hsends⟩
            | some chunk => exact hagain chunk (.inr (Option.some_ne_none _)) hsends
        | some chunk =>
            cases second with
            | none => exact hagain chunk (.inl (Option.some_ne_none _)) hsends
            | some chunk' => exact ⟨_, new, rfl, hsends⟩

-- A name found at the front of the stream is cut: no frame of the packet has
-- octets of both sides of its midpoint.
theorem writeFrames_sliced (hpacket : packet.Lawful octets) (hlaw : buffer.Lawful stream unsent)
    (hsni : SniInside findSni) {rounds : Nat} (hlimit : 0 < packet.limit w.builder)
    (hshort : (stream w.tx).length < 2 ^ 62) (hnext : buffer.nextBytes w.tx = some (0, data)) {sni : Span}
    (hfound : findSni data = some sni) (hlen : data.length < 1073741824)
    (h : writeFrames buffer packet findSni space true rounds w = some w') :
    ∃ new, Sends packet octets stream unsent space w new w' ∧
      ∀ f ∈ new, f.offset + f.data.length ≤ midpoint sni ∨ midpoint sni ≤ f.offset := by
  cases rounds with
  | zero => cases h
  | succ rounds =>
      obtain ⟨hwithin, hend⟩ := hlaw.next_within hnext
      have hunsent := hlaw.next_unsent hnext
      obtain ⟨hspan, hstop⟩ := hsni data sni hfound
      obtain ⟨left, right, hsliced, hleft, hright, hzero⟩ := sliced_within hwithin hspan hstop hlimit
      obtain ⟨first, b, hfirst⟩ : ∃ first b, writeChunk packet right.1 right.2 w.builder = (first, b) :=
        ⟨_, _, Prod.mk.eta.symm⟩
      obtain ⟨second, builder, hsecond⟩ : ∃ second builder,
          writeChunk packet left.1 left.2 b = (second, builder) :=
        ⟨_, _, Prod.mk.eta.symm⟩
      obtain ⟨new, hsends, hsides⟩ :=
        sends_sliced space hpacket hlaw hleft hright (Nat.lt_of_le_of_lt hend hshort) hunsent hfirst hsecond
      rw [Nat.zero_add] at hsides
      have hwritten : written packet findSni true 0 data w.builder = some (first, second, builder) := by
        simp only [written, hfound, hsliced, hfirst, hsecond, Option.map_some, and_self, if_true]
      have hfull : first = none ∨ second = none → packet.remaining builder < 4 := by
        have hupper := hleft.upper
        have hupper' := hright.upper
        have hlower := hright.lower
        exact sliced_room hpacket hzero (by omega) (by omega) hfirst hsecond
      have hstays : ∀ chunk rounds', first = none ∨ second = none →
          Sends packet octets stream unsent space w new
            ({ w with builder := builder }.markAsSent buffer space chunk) →
          writeFrames buffer packet findSni space true rounds'
            ({ w with builder := builder }.markAsSent buffer space chunk) = some w' →
          w' = { w with builder := builder }.markAsSent buffer space chunk := by
        intro chunk rounds' hone hsends h
        exact writeFrames_full hpacket hlaw hsni (by rw [hsends.frames.2]; exact hlimit)
          (by rw [hsends.sameStream]; exact hshort) (hfull hone) h
      unfold writeFrames at h
      simp only [hnext, hwritten] at h
      refine ⟨new, ?_, hsides⟩
      cases first with
      | none =>
          cases second with
          | none => exact Option.some.inj h ▸ hsends
          | some chunk => exact hstays chunk rounds (.inl rfl) hsends h ▸ hsends
      | some chunk =>
          cases second with
          | none => exact hstays chunk rounds (.inr rfl) hsends h ▸ hsends
          | some chunk' => exact Option.some.inj h ▸ hsends

end Loop

-- A buffer to run the code with: the stream and the offsets that are not sent.
def flagBuffer : TxBuffer (Bytes × (Nat → Bool)) where
  nextBytes t := ((List.range t.1.length).find? t.2).map fun offset =>
    (offset, (t.1.drop offset).take ((List.range' offset (t.1.length - offset)).takeWhile t.2).length)
  markAsSent t offset length :=
    (t.1, fun i => t.2 i && !(decide (offset ≤ i) && decide (i < offset + length)))

theorem flagBuffer_next {t : Bytes × (Nat → Bool)} {offset : Nat} {data : Bytes}
    (h : flagBuffer.nextBytes t = some (offset, data)) :
    (t.2 offset = true ∧ offset < t.1.length) ∧
      data = (t.1.drop offset).take ((List.range' offset (t.1.length - offset)).takeWhile t.2).length := by
  obtain ⟨o, hfind, hpair⟩ := Option.map_eq_some_iff.mp h
  obtain ⟨rfl, rfl⟩ := Prod.mk.inj hpair
  obtain ⟨hflag, hlt, _⟩ := List.find?_range_eq_some.mp hfind
  exact ⟨⟨hflag, List.mem_range.mp hlt⟩, rfl⟩

def flagUnsent (t : Bytes × (Nat → Bool)) (i : Nat) : Prop := i < t.1.length ∧ t.2 i = true

theorem flagBuffer_lawful : flagBuffer.Lawful Prod.fst flagUnsent where
  next_data := by
    intro t offset data h
    obtain ⟨⟨hflag, hlt⟩, rfl⟩ := flagBuffer_next h
    refine ⟨fun hnil => ?_, List.take_prefix _ _⟩
    have hrun : List.range' offset (t.1.length - offset) =
        offset :: List.range' (offset + 1) (t.1.length - offset - 1) := by
      rw [← List.range'_succ]
      congr 1
      omega
    rw [hrun, List.takeWhile_cons_of_pos hflag] at hnil
    have hzero := congrArg List.length hnil
    simp only [List.length_take, List.length_cons, List.length_drop, List.length_nil] at hzero
    omega
  next_unsent := by
    intro t offset data h i hlo hup
    obtain ⟨_, rfl⟩ := flagBuffer_next h
    have hrun := List.takeWhile_prefix (l := List.range' offset (t.1.length - offset)) t.2
    have hlen := hrun.length_le
    rw [List.length_range'] at hlen
    simp only [List.length_take, List.length_drop] at hup
    have hmem : i ∈ (List.range' offset (t.1.length - offset)).takeWhile t.2 := by
      rw [List.prefix_iff_eq_take.mp hrun, List.take_range'_of_length_ge hlen]
      exact List.mem_range'_1.mpr ⟨hlo, by omega⟩
    exact ⟨by omega, List.mem_takeWhile_imp hmem⟩
  mark_stream _ _ _ := rfl
  mark_unsent t offset length i := by
    simp only [flagBuffer, flagUnsent, Bool.and_eq_true, Bool.not_eq_true', Bool.and_eq_false_iff,
      decide_eq_false_iff_not,
      and_assoc, not_and_or]

-- A packet by its limit and its octets.
def flatPacket : PacketBuilder (Nat × Bytes) where
  limit b := b.1
  remaining b := b.1 - b.2.length
  varintLen v := (varint v).length
  encodeVarint v b := (b.1, b.2 ++ varint v)
  encodeVvec data b := (b.1, b.2 ++ (varint data.length ++ data))
  encodeFrame content b := content (b.1, b.2 ++ varint 6)

theorem flatPacket_lawful : flatPacket.Lawful Prod.snd where
  remaining _ := rfl
  varint_len _ _ := rfl
  encode_varint _ _ _ := ⟨rfl, rfl⟩
  encode_vvec _ _ _ := ⟨rfl, rfl⟩
  encode_frame _ b := ⟨(b.1, b.2 ++ varint 6), ⟨rfl, rfl⟩, rfl⟩

-- An integer of so many octets of a message, and a vector behind its length.
def uintAt (data : Bytes) (octets i : Nat) : Option Nat :=
  if i + octets ≤ data.length then
    some (((data.drop i).take octets).foldl (fun n octet => 256 * n + octet.toNat) 0)
  else none

def vectorEnd (data : Bytes) (octets i : Nat) : Option Nat :=
  (uintAt data octets i).map (i + octets + ·)

-- The names of the server_name extension, behind the head of the first, among
-- the extensions from one on.
def nameFrom (data : Bytes) : Nat → Nat → Option Span
  | 0, _ => none
  | extensions + 1, i =>
    match uintAt data 2 i, uintAt data 2 (i + 2) with
    | some 0, some _ =>
      (uintAt data 2 (i + 4)).bind fun names =>
        if 3 ≤ names ∧ i + 6 + names ≤ data.length then some ⟨i + 9, i + 6 + names⟩ else none
    | some _, some length => nameFrom data extensions (i + 4 + length)
    | _, _ => none

-- The name of the server in a ClientHello.
def serverName (data : Bytes) : Option Span := do
  if data.head? ≠ some 1 then none
  let suites ← vectorEnd data 1 38
  let compression ← vectorEnd data 2 suites
  let extensions ← vectorEnd data 1 compression
  nameFrom data data.length (extensions + 2)

theorem nameFrom_inside {data : Bytes} {extensions i : Nat} {sni : Span}
    (h : nameFrom data extensions i = some sni) : sni.start ≤ sni.stop ∧ sni.stop ≤ data.length := by
  induction extensions generalizing i with
  | zero => cases h
  | succ extensions ih =>
      unfold nameFrom at h
      split at h
      · obtain ⟨names, _, h⟩ := Option.bind_eq_some_iff.mp h
        split at h
        · next hnames =>
          obtain rfl := Option.some.inj h
          exact ⟨by dsimp only; omega, hnames.2⟩
        · cases h
      · exact ih h
      · cases h

theorem serverName_inside : SniInside serverName := by
  intro data sni h
  unfold serverName at h
  split at h
  · cases h
  · obtain ⟨_, _, h⟩ := Option.bind_eq_some_iff.mp h
    obtain ⟨_, _, h⟩ := Option.bind_eq_some_iff.mp h
    obtain ⟨_, _, h⟩ := Option.bind_eq_some_iff.mp h
    exact nameFrom_inside h

-- The hello of a client that asks for a.example: the random, a suite, no
-- compression, the extensions supported_versions and server_name.
def exampleHello : Bytes :=
  [1, 0, 0, 68, 3, 3] ++ List.replicate 32 7 ++ [0, 0, 2, 19, 1, 1, 0, 0, 25] ++
    [0, 43, 0, 3, 2, 3, 4] ++ [0, 0, 0, 14, 0, 12, 0, 0, 9] ++ [97, 46, 101, 120, 97, 109, 112, 108, 101]

example : serverName exampleHello = some ⟨63, 72⟩ := by decide

-- Streams that have it to send.
def helloStreams : CryptoStreams (Bytes × (Nat → Bool)) :=
  .initial (exampleHello, fun _ => true) ([], fun _ => true) ([], fun _ => true)

namespace CryptoStreams

variable {Tx B : Type} {buffer : TxBuffer Tx} {stream : Tx → Bytes} {unsent : Tx → Nat → Prop}
  {packet : PacketBuilder B} {octets : B → Bytes} {findSni : Bytes → Option Span}
  {space : PacketNumberSpace} {streams : CryptoStreams Tx} {tx : Tx} {builder : B}

theorem writeFrame_eq (htx : streams.get space = some tx) {sniSlicing : Bool}
    {tokens : List CryptoRecoveryToken} {crypto : Nat} {w : Writing Tx B}
    (h : writeFrames buffer packet findSni space sniSlicing (packet.remaining builder + 1)
      ⟨tx, builder, tokens, crypto⟩ = some w) :
    streams.writeFrame buffer packet findSni space sniSlicing builder tokens crypto =
      some (streams.put space w.tx, w.builder, w.tokens, w.crypto) := by
  unfold writeFrame
  rw [htx]
  dsimp only
  rw [h]
  rfl

-- What a call of `write_frame` does, for a space that is not discarded: it ends,
-- every octet of its frames is the stream's at its place and was not sent
-- before, no octet is sent twice, the packet, the buffer, the tokens and the
-- count have these frames and no others, and the packet stays within its limit.
theorem write_frame_sends (hpacket : packet.Lawful octets) (hlaw : buffer.Lawful stream unsent)
    (hsni : SniInside findSni) (sniSlicing : Bool) (htx : streams.get space = some tx)
    (hlimit : 0 < packet.limit builder) (hshort : (stream tx).length < 2 ^ 62)
    (tokens : List CryptoRecoveryToken) (crypto : Nat) :
    ∃ tx' builder' tokens' crypto' new,
      streams.writeFrame buffer packet findSni space sniSlicing builder tokens crypto =
        some (streams.put space tx', builder', tokens', crypto') ∧
      Sends packet octets stream unsent space ⟨tx, builder, tokens, crypto⟩ new
        ⟨tx', builder', tokens', crypto'⟩ := by
  obtain ⟨w', new, hw', hsends⟩ := writeFrames_sends (w := ⟨tx, builder, tokens, crypto⟩) hpacket hlaw hsni
    sniSlicing (packet.remaining builder + 1) hlimit hshort (Nat.lt_succ_self _)
  exact ⟨w'.tx, w'.builder, w'.tokens, w'.crypto, new, writeFrame_eq htx hw', hsends⟩

theorem write_frame_sends_hello :
    ∃ tx' builder' tokens' crypto' new,
      helloStreams.writeFrame flagBuffer flatPacket serverName .initial true (1200, List.replicate 40 0)
          [] 0 = some (helloStreams.put .initial tx', builder', tokens', crypto') ∧
      Sends flatPacket Prod.snd Prod.fst flagUnsent .initial
        ⟨(exampleHello, fun _ => true), (1200, List.replicate 40 0), [], 0⟩ new
        ⟨tx', builder', tokens', crypto'⟩ := by
  have hlimit : 0 < flatPacket.limit (1200, List.replicate 40 0) := by decide
  have hshort : exampleHello.length < 2 ^ 62 := by decide
  have htx : helloStreams.get .initial = some (exampleHello, fun _ => true) := rfl
  exact write_frame_sends flatPacket_lawful flagBuffer_lawful serverName_inside true htx hlimit hshort [] 0

-- While the name of the server is to be hidden, the packet with the front of the
-- stream cuts it: no frame goes over its midpoint, so none has it whole.
theorem write_frame_cuts_sni (hpacket : packet.Lawful octets) (hlaw : buffer.Lawful stream unsent)
    (hsni : SniInside findSni) (htx : streams.get space = some tx) (hlimit : 0 < packet.limit builder)
    (hshort : (stream tx).length < 2 ^ 62) (tokens : List CryptoRecoveryToken) (crypto : Nat) {data : Bytes}
    (hnext : buffer.nextBytes tx = some (0, data)) {sni : Span} (hfound : findSni data = some sni)
    (hlen : data.length < 1073741824) :
    ∃ tx' builder' tokens' crypto' new,
      streams.writeFrame buffer packet findSni space true builder tokens crypto =
        some (streams.put space tx', builder', tokens', crypto') ∧
      Sends packet octets stream unsent space ⟨tx, builder, tokens, crypto⟩ new
        ⟨tx', builder', tokens', crypto'⟩ ∧
      (∀ f ∈ new, f.offset + f.data.length ≤ midpoint sni ∨ midpoint sni ≤ f.offset) ∧
      (sni.start + 1 < sni.stop →
        ∀ f ∈ new, ¬(f.offset ≤ sni.start ∧ sni.stop ≤ f.offset + f.data.length)) := by
  obtain ⟨w', _, hw', _⟩ := writeFrames_sends (w := ⟨tx, builder, tokens, crypto⟩) hpacket hlaw hsni true
    (packet.remaining builder + 1) hlimit hshort (Nat.lt_succ_self _)
  obtain ⟨new, hsends, hsides⟩ := writeFrames_sliced hpacket hlaw hsni hlimit hshort hnext hfound hlen hw'
  refine ⟨w'.tx, w'.builder, w'.tokens, w'.crypto, new, writeFrame_eq htx hw', hsends, hsides, ?_⟩
  intro hlong f hf hwhole
  unfold midpoint at hsides
  cases hsides f hf with
  | inl hleft => omega
  | inr hright => omega

theorem write_frame_cuts_sni_hello :
    ∃ tx' builder' tokens' crypto' new,
      helloStreams.writeFrame flagBuffer flatPacket serverName .initial true (1200, List.replicate 40 0)
          [] 0 = some (helloStreams.put .initial tx', builder', tokens', crypto') ∧
      Sends flatPacket Prod.snd Prod.fst flagUnsent .initial
        ⟨(exampleHello, fun _ => true), (1200, List.replicate 40 0), [], 0⟩ new
        ⟨tx', builder', tokens', crypto'⟩ ∧
      (∀ f ∈ new, f.offset + f.data.length ≤ 67 ∨ 67 ≤ f.offset) ∧
      (63 + 1 < 72 → ∀ f ∈ new, ¬(f.offset ≤ 63 ∧ 72 ≤ f.offset + f.data.length)) := by
  have hlimit : 0 < flatPacket.limit (1200, List.replicate 40 0) := by decide
  have htx : helloStreams.get .initial = some (exampleHello, fun _ => true) := rfl
  have hshort : exampleHello.length < 2 ^ 62 := by decide
  have hnext : flagBuffer.nextBytes (exampleHello, fun _ => true) = some (0, exampleHello) := by decide
  have hfound : serverName exampleHello = some ⟨63, 72⟩ := by decide
  have hlen : exampleHello.length < 1073741824 := by decide
  exact write_frame_cuts_sni flatPacket_lawful flagBuffer_lawful serverName_inside htx hlimit hshort [] 0
    hnext hfound hlen

end CryptoStreams

end NeverFox.Quic
