import NeverFox.H2.Frame
import NeverFox.Lib.Masking

namespace NeverFox.Harness

open H2 (packU16 packU32)
open Masking

abbrev Octets := Piece UInt8

structure KeyShare where
  group : UInt16
  key : Bytes
  fits : key.length < 2 ^ 16

def KeyShare.fields (share : KeyShare) : List Octets :=
  [⟨false, packU16 share.group.toNat ++ packU16 share.key.length⟩, ⟨true, share.key⟩]

-- What RFC 8446 and its extensions put into the body of an extension, as far as it
-- is read: a vector with its length in front of it, or a limit.
structure Formed (type : Nat) (body : Bytes) : Prop where
  words : type = 0x000a ∨ type = 0x000d → ∃ items : List UInt16, 2 * items.length < 2 ^ 16 ∧
    body = packU16 (2 * items.length) ++ items.flatMap fun item => packU16 item.toNat
  shortWords : type = 0x002b ∨ type = 0x001b → ∃ items : List UInt16, 2 * items.length < 2 ^ 8 ∧
    body = UInt8.ofNat (2 * items.length) :: items.flatMap fun item => packU16 item.toNat
  octets : type = 0x000b ∨ type = 0x002d → ∃ items : Bytes, items.length < 2 ^ 8 ∧
    body = UInt8.ofNat items.length :: items
  names : type = 0x0010 → ∃ names : List Bytes, (∀ name ∈ names, name ≠ [] ∧ name.length < 2 ^ 8) ∧
    body = packU16 (names.flatMap fun name => UInt8.ofNat name.length :: name).length ++
      names.flatMap fun name => UInt8.ofNat name.length :: name
  limit : type = 0x001c → ∃ limit : UInt16, body = packU16 limit.toNat

-- Any extension. Those with free fields stand apart.
inductive Extension
  | keyShare (shares : List KeyShare)
  | encryptedClientHello (payload : Bytes)
  | plain (type : UInt16) (body : Bytes) (hkeyShare : type.toNat ≠ 0x0033) (hech : type.toNat ≠ 0xfe0d)
      (hformed : Formed type.toNat body)

namespace Extension

def type : Extension → Nat
  | keyShare _ => 0x0033
  | encryptedClientHello _ => 0xfe0d
  | plain type _ _ _ _ => type.toNat

def content : Extension → List Octets
  | keyShare shares =>
      let entries := shares.flatMap KeyShare.fields
      ⟨false, packU16 (flat entries).length⟩ :: entries
  | encryptedClientHello payload => [⟨true, payload⟩]
  | plain _ body _ _ _ => [⟨false, body⟩]

def body (e : Extension) : Bytes := flat e.content

def fields (e : Extension) : List Octets :=
  ⟨false, packU16 e.type ++ packU16 e.body.length⟩ :: e.content

end Extension

-- A ClientHello with all its lengths in range.
structure Hello where
  legacyVersion : UInt16
  random : Bytes
  sessionId : Bytes
  cipherSuites : List UInt16
  compression : Bytes
  extensions : List Extension
  randomLength : random.length = 32
  sessionIdFits : sessionId.length < 2 ^ 8
  suitesFit : 2 * cipherSuites.length < 2 ^ 16
  compressionFits : compression.length < 2 ^ 8
  extensionsFit : (flat (extensions.flatMap Extension.fields)).length < 2 ^ 16

namespace Hello

def suites (h : Hello) : Bytes := h.cipherSuites.flatMap fun suite => packU16 suite.toNat

def tail (h : Hello) : List Octets := h.extensions.flatMap Extension.fields

-- The message behind its type and length. Random, session id, key material and ECH
-- payloads are its free fields.
def content (h : Hello) : List Octets :=
  [⟨false, packU16 h.legacyVersion.toNat⟩, ⟨true, h.random⟩, ⟨false, [UInt8.ofNat h.sessionId.length]⟩,
    ⟨true, h.sessionId⟩, ⟨false, packU16 h.suites.length⟩, ⟨false, h.suites⟩,
    ⟨false, [UInt8.ofNat h.compression.length]⟩, ⟨false, h.compression⟩,
    ⟨false, packU16 (flat h.tail).length⟩] ++ h.tail

def fields (h : Hello) : List Octets :=
  ⟨false, 1 :: (packU32 (flat h.content).length).drop 1⟩ :: h.content

def encode (h : Hello) : Bytes := flat h.fields

end Hello

theorem length_packU16 (n : Nat) : (packU16 n).length = 2 := rfl

theorem packU16_inj {m n : Nat} (hm : m < 2 ^ 16) (hn : n < 2 ^ 16) (h : packU16 m = packU16 n) : m = n := by
  unfold packU16 at h
  obtain ⟨hhigh, htail⟩ := List.cons.inj h
  have hlow := (List.cons.inj htail).1
  have hhigh' := congrArg UInt8.toNat hhigh
  have hlow' := congrArg UInt8.toNat hlow
  rw [UInt8.toNat_ofNat', UInt8.toNat_ofNat'] at hhigh' hlow'
  omega

theorem octet_inj {m n : Nat} (hm : m < 2 ^ 8) (hn : n < 2 ^ 8) (h : UInt8.ofNat m = UInt8.ofNat n) :
    m = n := by
  have h' := congrArg UInt8.toNat h
  rw [UInt8.toNat_ofNat', UInt8.toNat_ofNat'] at h'
  omega

-- Two octets tell apart what they stand for, whatever follows.
theorem agrees_packU16 {m n : Nat} (hm : m < 2 ^ 16) (hn : n < 2 ^ 16) {u v : List (Option UInt8)}
    (h : Agrees ((packU16 m).map some ++ u) ((packU16 n).map some ++ v)) : m = n ∧ Agrees u v := by
  obtain ⟨heq, huv⟩ := agrees_fixed (by rw [length_packU16, length_packU16]) h
  exact ⟨packU16_inj hm hn heq, huv⟩

theorem agrees_octet {m n : Nat} (hm : m < 2 ^ 8) (hn : n < 2 ^ 8) {u v : List (Option UInt8)}
    (h : Agrees ([UInt8.ofNat m].map some ++ u) ([UInt8.ofNat n].map some ++ v)) : m = n ∧ Agrees u v := by
  have hlen : [UInt8.ofNat m].length = [UInt8.ofNat n].length := rfl
  obtain ⟨heq, huv⟩ := agrees_fixed hlen h
  exact ⟨octet_inj hm hn (List.cons.inj heq).1, huv⟩

theorem keyShare_rigid : Rigid (fun _ => True) fun share : KeyShare => pattern share.fields := by
  intro x y u v _ _ h
  unfold KeyShare.fields at h ⊢
  simp only [pattern_fixed, pattern_free, pattern_nil, List.append_nil, List.map_append,
    List.append_assoc] at h ⊢
  obtain ⟨hgroup, h⟩ := agrees_packU16 x.group.toNat_lt y.group.toNat_lt h
  obtain ⟨hlen, h⟩ := agrees_packU16 x.fits y.fits h
  rw [hlen] at h ⊢
  rw [hgroup]
  exact ⟨rfl, agrees_free h⟩

theorem keyShare_ne_nil (share : KeyShare) : pattern share.fields ≠ [] := by
  unfold KeyShare.fields packU16
  simp

theorem extension_ne_nil (e : Extension) : pattern e.fields ≠ [] := by
  unfold Extension.fields packU16
  simp

theorem Extension.type_lt (e : Extension) : e.type < 2 ^ 16 := by
  cases e with
  | keyShare shares => exact (by decide : 0x0033 < 2 ^ 16)
  | encryptedClientHello payload => exact (by decide : 0xfe0d < 2 ^ 16)
  | plain type body _ _ _ => exact type.toNat_lt

-- Of one type and one length, two contents have their free fields in the same places.
theorem content_rigid {x y : Extension} {u v : List (Option UInt8)} (htype : x.type = y.type)
    (hlen : x.body.length = y.body.length) (hfits : x.body.length < 2 ^ 16)
    (h : Agrees (pattern x.content ++ u) (pattern y.content ++ v)) :
    pattern x.content = pattern y.content ∧ Agrees u v := by
  have hdiff : 0x0033 ≠ 0xfe0d := by decide
  cases x with
  | keyShare shares =>
      cases y with
      | keyShare shares' =>
          unfold Extension.body Extension.content at hlen hfits
          unfold Extension.content at h ⊢
          simp only [flat_cons, List.length_append, length_packU16] at hlen hfits
          simp only [pattern_fixed, List.append_assoc] at h ⊢
          obtain ⟨htotal, h⟩ := agrees_packU16 (by omega) (by omega) h
          rw [pattern_flatMap, pattern_flatMap] at h ⊢
          have hrows : (shares.flatMap fun share => pattern share.fields).length =
              (shares'.flatMap fun share => pattern share.fields).length := by
            rw [← pattern_flatMap, ← pattern_flatMap, pattern_length, pattern_length, htotal]
          obtain ⟨hsame, huv⟩ := keyShare_rigid.flatMap keyShare_ne_nil (fun _ _ => trivial)
            (fun _ _ => trivial) hrows h
          rw [htotal, hsame]
          exact ⟨rfl, huv⟩
      | encryptedClientHello payload => exact absurd htype hdiff
      | plain type body hkeyShare hech hformed => exact absurd htype.symm hkeyShare
  | encryptedClientHello payload =>
      cases y with
      | keyShare shares => exact absurd htype.symm hdiff
      | encryptedClientHello payload' =>
          have hsame : payload.length = payload'.length := by
            simpa [Extension.body, Extension.content] using hlen
          unfold Extension.content at h ⊢
          simp only [pattern_free, pattern_nil, List.append_nil] at h ⊢
          rw [hsame] at h ⊢
          exact ⟨rfl, agrees_free h⟩
      | plain type body hkeyShare hech hformed => exact absurd htype.symm hech
  | plain type body hkeyShare hech hformed =>
      cases y with
      | keyShare shares => exact absurd htype hkeyShare
      | encryptedClientHello payload => exact absurd htype hech
      | plain type' body' _ _ _ =>
          have hsame : body.length = body'.length := by simpa [Extension.body, Extension.content] using hlen
          unfold Extension.content at h ⊢
          simp only [pattern_fixed, pattern_nil, List.append_nil] at h ⊢
          obtain ⟨rfl, huv⟩ := agrees_fixed hsame h
          exact ⟨rfl, huv⟩

-- The type and the length of an extension tell where its free fields are.
theorem extension_rigid :
    Rigid (fun e : Extension => e.body.length < 2 ^ 16) fun e : Extension => pattern e.fields := by
  intro x y u v hx hy h
  unfold Extension.fields at h ⊢
  simp only [pattern_fixed, List.map_append, List.append_assoc] at h ⊢
  obtain ⟨htype, h⟩ := agrees_packU16 x.type_lt y.type_lt h
  obtain ⟨hlen, h⟩ := agrees_packU16 hx hy h
  obtain ⟨hcontent, huv⟩ := content_rigid htype hlen hx h
  rw [htype, hlen, hcontent]
  exact ⟨rfl, huv⟩

theorem Hello.body_fits (h : Hello) {e : Extension} (he : e ∈ h.extensions) : e.body.length < 2 ^ 16 := by
  have hfit := h.extensionsFit
  have hle : (flat e.fields).length ≤ (flat (h.extensions.flatMap Extension.fields)).length := by
    obtain ⟨before, after, hsplit⟩ := List.append_of_mem he
    rw [hsplit, List.flatMap_append, List.flatMap_cons, flat_append, flat_append, List.length_append,
      List.length_append]
    omega
  have hbody : e.body.length ≤ (flat e.fields).length := by
    unfold Extension.fields
    rw [flat_cons, List.length_append]
    exact Nat.le_add_left _ _
  omega

theorem flatMap_words_length (items : List UInt16) :
    (items.flatMap fun item => packU16 item.toNat).length = 2 * items.length := by
  induction items with
  | nil => rfl
  | cons item items ih =>
      rw [List.flatMap_cons, List.length_append, ih, length_packU16, List.length_cons]
      omega

theorem Hello.suites_length (h : Hello) : h.suites.length = 2 * h.cipherSuites.length :=
  flatMap_words_length h.cipherSuites

-- Two messages that agree wherever both are fixed have the same pattern.
theorem pattern_eq_of_agrees {x y : Hello} (h : Agrees (pattern x.fields) (pattern y.fields)) :
    pattern x.fields = pattern y.fields := by
  unfold Hello.fields Hello.content at h ⊢
  simp only [pattern_fixed, pattern_free, List.cons_append, List.nil_append, x.randomLength,
    y.randomLength] at h ⊢
  obtain ⟨hhead, h⟩ := agrees_fixed (by simp [packU32]) h
  obtain ⟨hversion, h⟩ := agrees_packU16 x.legacyVersion.toNat_lt y.legacyVersion.toNat_lt h
  have h := agrees_free h
  obtain ⟨hsid, h⟩ := agrees_octet x.sessionIdFits y.sessionIdFits h
  rw [hsid] at h
  have h := agrees_free h
  have hx := x.suitesFit
  have hy := y.suitesFit
  rw [← Hello.suites_length] at hx hy
  obtain ⟨hsuites, h⟩ := agrees_packU16 hx hy h
  obtain ⟨hsame, h⟩ := agrees_fixed hsuites h
  obtain ⟨hcomp, h⟩ := agrees_octet x.compressionFits y.compressionFits h
  obtain ⟨hcompression, h⟩ := agrees_fixed hcomp h
  obtain ⟨htotal, h⟩ := agrees_packU16 x.extensionsFit y.extensionsFit h
  have htail : pattern x.tail = pattern y.tail := by
    have hrows : (pattern x.tail).length = (pattern y.tail).length := by
      rw [pattern_length, pattern_length]
      exact htotal
    unfold Hello.tail at h hrows ⊢
    rw [pattern_flatMap, pattern_flatMap] at h hrows ⊢
    rw [← List.append_nil (x.extensions.flatMap _), ← List.append_nil (y.extensions.flatMap _)] at h
    exact (extension_rigid.flatMap extension_ne_nil (fun _ => x.body_fits) (fun _ => y.body_fits) hrows h).1
  have htotal' : (flat x.tail).length = (flat y.tail).length := htotal
  rw [hhead, hversion, hsid, hsuites, hsame, hcompression, htotal', htail]

-- The message with every free field blanked, which is a message again.
def KeyShare.blanked (share : KeyShare) : KeyShare where
  group := share.group
  key := List.replicate share.key.length 0
  fits := by
    rw [List.length_replicate]
    exact share.fits

def Extension.blanked : Extension → Extension
  | keyShare shares => keyShare (shares.map KeyShare.blanked)
  | encryptedClientHello payload => encryptedClientHello (List.replicate payload.length 0)
  | plain type body hkeyShare hech hformed => plain type body hkeyShare hech hformed

theorem KeyShare.blanked_fields (share : KeyShare) :
    share.blanked.fields = share.fields.map (Piece.blanked 0) := by
  unfold KeyShare.fields KeyShare.blanked
  simp

theorem flatMap_blanked {ι : Type} {code : ι → List Octets} {mask : ι → ι}
    (h : ∀ x, code (mask x) = (code x).map (Piece.blanked 0)) (xs : List ι) :
    (xs.map mask).flatMap code = (xs.flatMap code).map (Piece.blanked 0) := by
  rw [List.flatMap_map, List.map_flatMap]
  exact List.flatMap_congr fun x _ => h x

theorem Extension.blanked_content (e : Extension) : e.blanked.content = e.content.map (Piece.blanked 0) := by
  cases e with
  | keyShare shares =>
      unfold Extension.blanked Extension.content
      dsimp only
      rw [flatMap_blanked KeyShare.blanked_fields, flat_blanked_length]
      rfl
  | encryptedClientHello payload => rfl
  | plain type body _ _ _ => rfl

theorem Extension.blanked_type (e : Extension) : e.blanked.type = e.type := by
  cases e with
  | keyShare shares => rfl
  | encryptedClientHello payload => rfl
  | plain type body _ _ _ => rfl

theorem Extension.blanked_fields (e : Extension) : e.blanked.fields = e.fields.map (Piece.blanked 0) := by
  unfold Extension.fields Extension.body
  rw [e.blanked_content, flat_blanked_length, e.blanked_type]
  rfl

def Hello.blanked (h : Hello) : Hello where
  legacyVersion := h.legacyVersion
  random := List.replicate h.random.length 0
  sessionId := List.replicate h.sessionId.length 0
  cipherSuites := h.cipherSuites
  compression := h.compression
  extensions := h.extensions.map Extension.blanked
  randomLength := by rw [List.length_replicate, h.randomLength]
  sessionIdFits := by
    rw [List.length_replicate]
    exact h.sessionIdFits
  suitesFit := h.suitesFit
  compressionFits := h.compressionFits
  extensionsFit := by
    rw [flatMap_blanked Extension.blanked_fields, flat_blanked_length]
    exact h.extensionsFit

theorem Hello.blanked_fields (h : Hello) : h.blanked.fields = h.fields.map (Piece.blanked 0) := by
  have htail : h.blanked.tail = h.tail.map (Piece.blanked 0) := flatMap_blanked Extension.blanked_fields _
  have hcontent : h.blanked.content = h.content.map (Piece.blanked 0) := by
    unfold Hello.content
    rw [htail, flat_blanked_length]
    simp [Hello.blanked, Hello.suites]
  unfold Hello.fields
  rw [hcontent, flat_blanked_length]
  rfl

end NeverFox.Harness
