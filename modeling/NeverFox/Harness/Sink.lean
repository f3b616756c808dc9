import NeverFox.Harness.Capture
import NeverFox.Harness.Fields

namespace NeverFox.Harness

open Masking

-- The message as the capture takes it off its records.
def Hello.message (h : Hello) : HandshakeMessage where
  body := flat h.content
  fits := by
    have hlen := hello_length h
    have hhead : h.encode.length = (flat h.content).length + 4 := rfl
    have hsid := h.sessionIdFits
    have hsuites := h.suitesFit
    have hcompression := h.compressionFits
    have hextensions : (flat h.tail).length < 2 ^ 16 := h.extensionsFit
    rw [h.suites_length] at hlen
    omega

theorem recv_message {hello : HandshakeMessage} {first : HandshakeRecord} {records : List HandshakeRecord}
    {extra behind : Bytes} {segments : List (UInt8 × Bytes)} (hfirst : 4 ≤ first.payload.length)
    (hsplit : (first :: records).flatMap HandshakeRecord.payload = hello.encode ++ extra)
    (hstream : H2.bytesOf (ofSegments segments) =
      (first :: records).flatMap HandshakeRecord.encode ++ behind) :
    recvClientHello (ofSegments segments) = some (some hello.encode) := by
  rw [List.flatMap_cons] at hsplit
  rw [List.flatMap_cons, List.append_assoc] at hstream
  obtain ⟨conn₁, conn₂, hread₁, hread₂, hrest, hquiet, _⟩ := readn_record (ofSegments_quiet segments) hstream
  obtain ⟨res, hres, htake⟩ := collect_spec hello hfirst hquiet hsplit hrest
    (Nat.lt_succ_self (H2.weight conn₂))
  unfold recvClientHello
  simp only [hread₁, first.not_foreign, Bool.false_eq_true, ↓reduceIte, hread₂]
  rw [if_neg (by omega), handshakeLength_eq hfirst hsplit, hres, Option.map_some, htake]

-- What is said of the hello that arrives is what it says, however it is spread
-- over records and segments, if the first record holds its header.
theorem hello_reported (digests : Digests) (h : Hello) {first : HandshakeRecord}
    {records : List HandshakeRecord} {extra behind : Bytes} {segments : List (UInt8 × Bytes)}
    (hfirst : 4 ≤ first.payload.length)
    (hsplit : (first :: records).flatMap HandshakeRecord.payload = h.encode ++ extra)
    (hstream : H2.bytesOf (ofSegments segments) =
      (first :: records).flatMap HandshakeRecord.encode ++ behind) :
    (∃ items : List Item, h.extensions = items.map Item.extension) ∧
      ∀ items : List Item, h.extensions = items.map Item.extension → ∃ hs prints,
        recvClientHello (ofSegments segments) = some (some hs) ∧
          parseClientHello digests hs = .ok (h.parsed items, prints) := by
  refine ⟨exists_items h.extensions, ?_⟩
  intro items hitems
  obtain ⟨prints, _, hparse⟩ := parse_items digests hitems
  exact ⟨h.encode, prints, @recv_message h.message _ _ _ _ _ hfirst hsplit hstream, hparse⟩

-- Two key shares in two extensions, and an extension with an unknown type.
def shareItems : List Item :=
  [.supportedVersions [0x0304, 0x0303] (by decide), .keyShare [⟨0x11ec, [7, 7], by decide⟩],
    .other 0x0017 [] (by decide), .keyShare [⟨0x001d, [8], by decide⟩]]

def shareHello : Hello where
  legacyVersion := 0x0303
  random := List.replicate 32 5
  sessionId := [1, 2]
  cipherSuites := [0x1301, 0x1302]
  compression := [1, 0]
  extensions := shareItems.map Item.extension
  randomLength := List.length_replicate
  sessionIdFits := by decide
  suitesFit := by decide
  compressionFits := by decide
  extensionsFit := by decide

-- The first record ends in the random, the first segment in the second record.
def shareRecords : List HandshakeRecord :=
  [⟨(3, 1), shareHello.encode.take 9, by decide⟩, ⟨(3, 3), shareHello.encode.drop 9 ++ [0], by decide⟩]

def shareStream : Bytes := shareRecords.flatMap HandshakeRecord.encode

def shareSegments : List (UInt8 × Bytes) :=
  [(22, (shareStream.take 40).drop 1), (shareStream.getD 40 0, shareStream.drop 41)]

theorem hello_reported_share : ∃ hs prints,
    recvClientHello (ofSegments shareSegments) = some (some hs) ∧
      parseClientHello verbatim hs = .ok (shareHello.parsed shareItems, prints) ∧
      (shareHello.parsed shareItems).details.keyShareGroups = some [0x11ec, 0x001d] := by
  obtain ⟨hs, prints, hrecv, hparse⟩ := (@hello_reported verbatim shareHello
    ⟨(3, 1), shareHello.encode.take 9, by decide⟩ [⟨(3, 3), shareHello.encode.drop 9 ++ [0], by decide⟩]
    [0] [] shareSegments (by decide) (by decide) (by decide)).2 shareItems rfl
  exact ⟨hs, prints, hrecv, hparse, rfl⟩

end NeverFox.Harness
