import NeverFox.H2.FrameReader

namespace NeverFox.Harness

open H2 (Arrival bytesOf weight recvn packU16 packU32)

-- `readn` is the loop of `Transport.recvn` over again, with a timeout that always
-- ends it. No record asks for more than 65535 octets, so one read is not limited.
def readn (n : Nat) (conn : List Arrival) : Option (Bytes × List Arrival) :=
  recvn true n (weight conn + 1) [] conn

-- (rec[3] << 8) | rec[4]
def recordLength (rec : Bytes) : Nat := (rec.getD 3 0).toNat * 2 ^ 8 + (rec.getD 4 0).toNat

-- (body[1] << 16) | (body[2] << 8) | body[3]
def handshakeLength (body : Bytes) : Nat :=
  (body.getD 1 0).toNat * 2 ^ 16 + (body.getD 2 0).toNat * 2 ^ 8 + (body.getD 3 0).toNat

-- The header of a record that is no handshake record, or none at all.
def foreign (rec : Bytes) : Bool := rec.length < 5 || rec.headD 0 != 22

-- The loop over further records. `none` says that the fuel has run out.
def collect (hsLen : Nat) : Nat → Bytes → List Arrival → Option Bytes
  | 0, _, _ => none
  | fuel + 1, full, conn =>
      if full.length - 4 < hsLen then
        match readn 5 conn with
        | none => none
        | some (rec, conn) =>
            if foreign rec then some full
            else
              match readn (recordLength rec) conn with
              | none => none
              | some (more, conn) => collect hsLen fuel (full ++ more) conn
      else some full

-- The inner `none` is Python's.
def recvClientHello (conn : List Arrival) : Option (Option Bytes) :=
  match readn 5 conn with
  | none => none
  | some (rec, conn) =>
      if foreign rec then some none
      else
        match readn (recordLength rec) conn with
        | none => none
        | some (body, conn) =>
            if body.length < 4 then some none
            else
              (collect (handshakeLength body) (weight conn + 1) body conn).map fun full =>
                some (full.take (4 + handshakeLength body))

-- A ClientHello as a handshake message: its type, three octets of length, its body.
structure HandshakeMessage where
  body : Bytes
  fits : body.length < 2 ^ 24

def HandshakeMessage.encode (hello : HandshakeMessage) : Bytes :=
  1 :: (packU32 hello.body.length).drop 1 ++ hello.body

-- A TLS record that carries handshake octets, of whatever version it says it is.
structure HandshakeRecord where
  version : UInt8 × UInt8
  payload : Bytes
  fits : payload.length < 2 ^ 16

namespace HandshakeRecord

def header (r : HandshakeRecord) : Bytes := [22, r.version.1, r.version.2] ++ packU16 r.payload.length

def encode (r : HandshakeRecord) : Bytes := r.header ++ r.payload

@[simp] theorem header_length (r : HandshakeRecord) : r.header.length = 5 := rfl

theorem not_foreign (r : HandshakeRecord) : foreign r.header = false := rfl

theorem recordLength_header (r : HandshakeRecord) : recordLength r.header = r.payload.length := by
  have hfits := r.fits
  show (UInt8.ofNat (r.payload.length / 2 ^ 8)).toNat * 2 ^ 8 + (UInt8.ofNat r.payload.length).toNat = _
  simp only [UInt8.toNat_ofNat']
  omega

end HandshakeRecord

-- TCP segments that come in one after the other, before the peer closes.
def ofSegments (segments : List (UInt8 × Bytes)) : List Arrival := segments.map fun s => .octets s.1 s.2

theorem ofSegments_quiet (segments : List (UInt8 × Bytes)) : .timeout ∉ ofSegments segments := by
  intro h
  obtain ⟨s, _, hs⟩ := List.mem_map.mp h
  cases hs

theorem readn_eq {n : Nat} {conn : List Arrival} (hquiet : .timeout ∉ conn) :
    ∃ rest, readn n conn = some ((bytesOf conn).take n, rest) ∧ bytesOf rest = (bytesOf conn).drop n ∧
      rest.length ≤ conn.length ∧ .timeout ∉ rest := by
  obtain ⟨rest, hread, hbytes, hlen, hrest⟩ := H2.recvn_fresh n (fun _ => hquiet)
  exact ⟨rest, hread, hbytes, hlen, hrest hquiet⟩

-- A record at the front is read whole, header and payload.
theorem readn_record {r : HandshakeRecord} {more : Bytes} {conn : List Arrival} (hquiet : .timeout ∉ conn)
    (hconn : bytesOf conn = r.encode ++ more) :
    ∃ conn₁ conn₂, readn 5 conn = some (r.header, conn₁) ∧
      readn (recordLength r.header) conn₁ = some (r.payload, conn₂) ∧ bytesOf conn₂ = more ∧
      .timeout ∉ conn₂ ∧ weight conn₂ < weight conn := by
  obtain ⟨conn₁, hread₁, hbytes₁, hlen₁, hquiet₁⟩ := @readn_eq 5 _ hquiet
  obtain ⟨conn₂, hread₂, hbytes₂, hlen₂, hquiet₂⟩ := @readn_eq r.payload.length _ hquiet₁
  have hheader : (bytesOf conn).take 5 = r.header ∧ (bytesOf conn).drop 5 = r.payload ++ more := by
    rw [hconn, HandshakeRecord.encode, List.append_assoc, ← r.header_length]
    exact ⟨List.take_left, List.drop_left⟩
  rw [hheader.1] at hread₁
  rw [hheader.2] at hbytes₁
  rw [hbytes₁, List.take_left] at hread₂
  rw [hbytes₁, List.drop_left] at hbytes₂
  refine ⟨conn₁, conn₂, hread₁, r.recordLength_header ▸ hread₂, hbytes₂, hquiet₂, ?_⟩
  have hsum := congrArg List.length hconn
  rw [HandshakeRecord.encode, List.length_append, List.length_append, r.header_length, ← hbytes₂] at hsum
  unfold weight
  omega

theorem encode_length (hello : HandshakeMessage) : hello.encode.length = 4 + hello.body.length := by
  show hello.body.length + 1 + 1 + 1 + 1 = 4 + hello.body.length
  omega

-- What has been collected is a part from the front of the message and what
-- follows it, so the loop ends with all of the message in hand.
theorem collect_spec (hello : HandshakeMessage) {behind extra : Bytes} {records : List HandshakeRecord}
    {full : Bytes} {conn : List Arrival} {fuel : Nat} (hfull : 4 ≤ full.length) (hquiet : .timeout ∉ conn)
    (hsplit : full ++ records.flatMap HandshakeRecord.payload = hello.encode ++ extra)
    (hconn : bytesOf conn = records.flatMap HandshakeRecord.encode ++ behind) (hfuel : weight conn < fuel) :
    ∃ res, collect hello.body.length fuel full conn = some res ∧
      res.take (4 + hello.body.length) = hello.encode := by
  induction records generalizing full conn fuel with
  | nil =>
      obtain ⟨fuel, rfl⟩ : ∃ n, fuel = n + 1 := ⟨fuel - 1, by omega⟩
      rw [List.flatMap_nil, List.append_nil] at hsplit
      have hlen : ¬full.length - 4 < hello.body.length := by
        rw [hsplit, List.length_append, encode_length]
        omega
      refine ⟨full, by rw [collect, if_neg hlen], ?_⟩
      rw [hsplit, ← encode_length, List.take_left]
  | cons r records ih =>
      obtain ⟨fuel, rfl⟩ : ∃ n, fuel = n + 1 := ⟨fuel - 1, by omega⟩
      by_cases hmore : full.length - 4 < hello.body.length
      · rw [List.flatMap_cons, List.append_assoc] at hconn
        obtain ⟨conn₁, conn₂, hread₁, hread₂, hrest, hquiet₂, hless⟩ := readn_record hquiet hconn
        obtain ⟨res, hres, htake⟩ := @ih (full ++ r.payload) conn₂ fuel
          (by rw [List.length_append]; omega) hquiet₂
          (by rw [List.append_assoc, ← List.flatMap_cons]; exact hsplit) hrest (by omega)
        refine ⟨res, ?_, htake⟩
        unfold collect
        rw [if_pos hmore, hread₁]
        simp only [r.not_foreign, Bool.false_eq_true, ↓reduceIte, hread₂]
        exact hres
      · refine ⟨full, by rw [collect, if_neg hmore], ?_⟩
        have htake := congrArg (List.take (4 + hello.body.length)) hsplit
        rw [List.take_append_of_le_length (by omega), ← encode_length, List.take_left] at htake
        rw [← encode_length]
        exact htake

-- The header of the message, when the first record holds it, says its length.
theorem handshakeLength_eq {hello : HandshakeMessage} {payload rest extra : Bytes} (hlen : 4 ≤ payload.length)
    (hsplit : payload ++ rest = hello.encode ++ extra) : handshakeLength payload = hello.body.length := by
  have htake := congrArg (List.take 4) hsplit
  rw [List.take_append_of_le_length hlen] at htake
  have hhead : handshakeLength payload = handshakeLength (payload.take 4) := by
    unfold handshakeLength
    simp only [List.getD_eq_getElem?_getD, List.getElem?_take]
    rfl
  rw [hhead, htake]
  exact H2.length_octets hello.fits

-- The message is captured, however its octets are spread over records and
-- segments, just if the first record holds all of its header.
theorem hello_captured_iff (hello : HandshakeMessage) (first : HandshakeRecord)
    (records : List HandshakeRecord)
    (extra behind : Bytes) (segments : List (UInt8 × Bytes))
    (hsplit : (first :: records).flatMap HandshakeRecord.payload = hello.encode ++ extra)
    (hstream : bytesOf (ofSegments segments) =
      (first :: records).flatMap HandshakeRecord.encode ++ behind) :
    recvClientHello (ofSegments segments) = some (some hello.encode) ↔ 4 ≤ first.payload.length := by
  rw [List.flatMap_cons] at hsplit
  rw [List.flatMap_cons, List.append_assoc] at hstream
  obtain ⟨conn₁, conn₂, hread₁, hread₂, hrest, hquiet, _⟩ := readn_record (ofSegments_quiet segments) hstream
  unfold recvClientHello
  simp only [hread₁, first.not_foreign, Bool.false_eq_true, ↓reduceIte, hread₂]
  by_cases hlen : first.payload.length < 4
  · rw [if_pos hlen]
    constructor
    · intro h
      cases h
    · intro h
      omega
  · rw [if_neg hlen, handshakeLength_eq (by omega) hsplit]
    obtain ⟨res, hres, htake⟩ :=
      collect_spec hello (by omega) hquiet hsplit hrest (Nat.lt_succ_self (weight conn₂))
    rw [hres, Option.map_some, htake]
    exact ⟨fun _ => by omega, fun _ => rfl⟩

-- A message with a body of two octets.
def smallHello : HandshakeMessage where
  body := [7, 8]
  fits := by decide

-- In two records and three segments, with more behind it in the last record.
def threeSegments : List (UInt8 × Bytes) :=
  [(22, [3]), (1, [0, 5, 1, 0, 0, 2, 7, 22, 3, 3, 0, 3, 8]), (9, [9])]

theorem hello_captured_three :
    recvClientHello (ofSegments threeSegments) = some (some smallHello.encode) := by
  refine (hello_captured_iff smallHello ⟨(3, 1), [1, 0, 0, 2, 7], by decide⟩
    [⟨(3, 3), [8, 9, 9], by decide⟩] [9, 9] [] threeSegments rfl rfl).mpr ?_
  decide

-- With one octet of it in the first record, and the rest in the second.
def shortFirst : List HandshakeRecord :=
  [⟨(3, 1), [1], by decide⟩, ⟨(3, 1), [0, 0, 2, 7, 8], by decide⟩]

def oneSegment : List (UInt8 × Bytes) := [(22, [3, 1, 0, 1, 1, 22, 3, 1, 0, 5, 0, 0, 2, 7, 8])]

theorem hello_lost_short_first :
    shortFirst.flatMap HandshakeRecord.payload = smallHello.encode ∧
      bytesOf (ofSegments oneSegment) = shortFirst.flatMap HandshakeRecord.encode ∧
      recvClientHello (ofSegments oneSegment) = some none := by
  refine ⟨rfl, rfl, ?_⟩
  decide

end NeverFox.Harness
