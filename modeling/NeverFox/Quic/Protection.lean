import Mathlib.Data.Nat.Size
import NeverFox.Basic

namespace NeverFox.Quic

inductive Version
  | version2
  | version1
  | draft29
  deriving DecidableEq

-- The order of the enum map over the versions.
def Version.all : List Version := [.version2, .version1, .draft29]

inductive Epoch
  | initial
  | zeroRtt
  | handshake
  | applicationData
  deriving DecidableEq

-- usize::from(epoch)
def Epoch.toNat : Epoch → Nat
  | .initial => 0
  | .zeroRtt => 1
  | .handshake => 2
  | .applicationData => 3

inductive PacketNumberSpace
  | initial
  | handshake
  | applicationData
  deriving DecidableEq

inductive CryptoDxDirection
  | read
  | write
  deriving DecidableEq

-- The ciphers that Crypto::new enables.
inductive Cipher
  | aes128Gcm
  | aes256Gcm
  | chacha20Poly1305
  deriving DecidableEq

inductive Error
  | crypto
  | internal
  | keysExhausted
  | keyUpdateBlocked
  | packetNumberOverlap
  | versionNegotiation
  deriving DecidableEq

-- What the code calls of nss: HKDF, the record protection and the header
-- protection. Each of them can fail.
structure Nss (Secret Aead HpKey : Type) where
  labelPrefix : Version → String
  initialSalt : Version → Bytes
  importKey : Bytes → Except Error Secret
  extract : Cipher → Secret → Secret → Except Error Secret
  expandLabel : Cipher → Secret → String → Except Error Secret
  aeadNew : Cipher → Secret → String → CryptoDxDirection → Except Error Aead
  hpExtract : Cipher → Secret → String → Except Error HpKey
  hpClone : HpKey → Except Error HpKey
  expansion : Aead → Nat
  -- The key, the packet number, the header and the buffer behind it.
  encryptInPlace : Aead → Nat → Bytes → Bytes → Except Error Bytes
  decryptInPlace : Aead → Nat → Bytes → Bytes → Except Error Bytes

-- A suite to run the code with: it adds the key and the packet number to each
-- octet, and the tag is of the key and the header.
def Nss.adding : Nss Nat Nat Unit where
  labelPrefix _ := "quic "
  initialSalt _ := [56, 118, 44]
  importKey key := .ok (key.foldl (fun n b => n + b.toNat) 0)
  extract _ salt key := .ok (salt + key)
  expandLabel _ secret _ := .ok (secret + 1)
  aeadNew _ secret _ _ := .ok secret
  hpExtract _ _ _ := .ok ()
  hpClone _ := .ok ()
  expansion _ := 16
  encryptInPlace key pn hdr buffer :=
    if buffer.length < 16 then .error .crypto
    else .ok ((buffer.take (buffer.length - 16)).map (· + UInt8.ofNat (key + pn)) ++
      List.replicate 16 (UInt8.ofNat key + hdr.foldl (· + ·) 0))
  decryptInPlace key pn hdr buffer :=
    if buffer.drop (buffer.length - 16) = List.replicate 16 (UInt8.ofNat key + hdr.foldl (· + ·) 0) then
      .ok ((buffer.take (buffer.length - 16)).map (· - UInt8.ofNat (key + pn)))
    else .error .crypto

variable {Secret Aead HpKey : Type}

-- Range<T>
structure Span where
  start : Nat
  stop : Nat
  deriving DecidableEq

namespace Span

def isEmpty (r : Span) : Bool := r.stop ≤ r.start

def contains (r : Span) (n : Nat) : Bool := r.start ≤ n ∧ n < r.stop

def slice (r : Span) (data : Bytes) : Bytes := (data.take r.stop).drop r.start

end Span

-- The key of the AEAD and that of the header protection stay abstract.
structure CryptoDxState (Aead HpKey : Type) where
  version : Version
  direction : CryptoDxDirection
  epoch : Nat
  aead : Aead
  hpkey : HpKey
  usedPn : Span
  minPn : Nat
  invocations : Nat
  largestPacketLen : Nat

def initialLargestPacketLen : Nat := 2048

def updateWriteKeysAt : Nat := 100

-- packet::Number::MAX
def numberMax : Nat := 18446744073709551615

def leadingZeros (n : Nat) : Nat := 64 - n.size

namespace CryptoDxState

def limit : CryptoDxDirection → Cipher → Nat
  | .read, .aes128Gcm => 4503599627370496
  | .read, .aes256Gcm => numberMax
  | .read, .chacha20Poly1305 => 68719476736
  | .write, .aes128Gcm => 268435456
  | .write, .aes256Gcm => 268435456
  | .write, .chacha20Poly1305 => numberMax

def new (nss : Nss Secret Aead HpKey) (version : Version) (direction : CryptoDxDirection) (epoch : Epoch)
    (secret : Secret) (cipher : Cipher) (minPn : Nat) : Except Error (CryptoDxState Aead HpKey) := do
  let aead ← nss.aeadNew cipher secret (nss.labelPrefix version) direction
  let hpkey ← nss.hpExtract cipher secret (nss.labelPrefix version ++ "hp")
  return {
    version := version
    direction := direction
    epoch := epoch.toNat
    aead := aead
    hpkey := hpkey
    usedPn := ⟨minPn, minPn⟩
    minPn := minPn
    invocations := limit direction cipher
    largestPacketLen := initialLargestPacketLen }

def newInitial (nss : Nss Secret Aead HpKey) (version : Version) (direction : CryptoDxDirection)
    (label : String) (dcid : Bytes) (minPn : Nat) : Except Error (CryptoDxState Aead HpKey) := do
  let salt ← nss.importKey (nss.initialSalt version)
  let key ← nss.importKey dcid
  let initialSecret ← nss.extract .aes128Gcm salt key
  let secret ← nss.expandLabel .aes128Gcm initialSecret label
  new nss version direction .initial secret .aes128Gcm minPn

variable (s : CryptoDxState Aead HpKey)

def invoked : Except Error (CryptoDxState Aead HpKey) :=
  if s.invocations = 0 then .error .keysExhausted else .ok { s with invocations := s.invocations - 1 }

def shouldUpdate : Bool := s.invocations ≤ updateWriteKeysAt

def nextPn : Nat := s.usedPn.stop

-- The keys that follow. Only write keys start with a limit of their own.
def next (nss : Nss Secret Aead HpKey) (nextSecret : Secret) (cipher : Cipher) :
    Except Error (CryptoDxState Aead HpKey) := do
  let aead ← nss.aeadNew cipher nextSecret (nss.labelPrefix s.version) s.direction
  let hpkey ← nss.hpClone s.hpkey
  return {
    version := s.version
    direction := s.direction
    epoch := s.epoch + 1
    aead := aead
    hpkey := hpkey
    usedPn := ⟨s.nextPn, s.nextPn⟩
    minPn := s.nextPn
    invocations := if s.direction = .read then s.invocations else limit .write cipher
    largestPacketLen := initialLargestPacketLen }

-- self.epoch & 1 != 1
def keyPhase : Bool := s.epoch % 2 ≠ 1

-- The new least packet number stays set when the ranges overlap.
def continuation (prev : CryptoDxState Aead HpKey) : Except Error Unit × CryptoDxState Aead HpKey :=
  let next := prev.nextPn
  let s := { s with minPn := next }
  if s.usedPn.isEmpty then
    (.ok (), { s with usedPn := ⟨next, next⟩ })
  else if prev.usedPn.stop > s.usedPn.start then
    (.error .packetNumberOverlap, s)
  else
    (.ok (), { s with usedPn := { s.usedPn with start := next } })

def used (pn : Nat) : Except Error (CryptoDxState Aead HpKey) :=
  if pn < s.minPn then
    .error .packetNumberOverlap
  else
    .ok { s with
      usedPn := {
        start := if s.usedPn.start = s.usedPn.stop then pn else s.usedPn.start
        stop := max (pn + 1) s.usedPn.stop } }

def needsUpdate : Bool := s.usedPn.start + 1 = s.usedPn.stop ∧ s.epoch > Epoch.applicationData.toNat

def canUpdate : Option Nat → Bool
  | none => s.epoch = Epoch.applicationData.toNat
  | some largestAcknowledged => s.usedPn.contains largestAcknowledged

-- The limits assume packets of a bounded size: one larger than all before
-- lowers what is left of them.
def grown (bodyLen : Nat) : CryptoDxState Aead HpKey :=
  if bodyLen > s.largestPacketLen then
    { s with
      invocations := s.invocations >>> (leadingZeros (s.largestPacketLen - 1) - leadingZeros (bodyLen - 1))
      largestPacketLen := bodyLen }
  else s

def bodyLen (nss : Nss Secret Aead HpKey) (hdr : Span) (data : Bytes) : Nat :=
  data.length - (hdr.stop - hdr.start) - nss.expansion s.aead

def encrypt (nss : Nss Secret Aead HpKey) (pn : Nat) (hdr : Span) (data : Bytes) :
    Except Error Bytes × CryptoDxState Aead HpKey :=
  let s := s.grown (s.bodyLen nss hdr data)
  match s.invoked with
  | .error err => (.error err, s)
  | .ok s =>
    match nss.encryptInPlace s.aead pn (hdr.slice data) (data.drop hdr.stop) with
    | .error err => (.error err, s)
    | .ok sealed =>
      match s.used pn with
      | .error err => (.error err, s)
      | .ok s => (.ok sealed, s)

-- What is authenticated here is all that stands before the body, not the
-- header alone as above.
def decrypt (nss : Nss Secret Aead HpKey) (pn : Nat) (hdr : Span) (data : Bytes) :
    Except Error Bytes × CryptoDxState Aead HpKey :=
  match s.invoked with
  | .error err => (.error err, s)
  | .ok s =>
    match nss.decryptInPlace s.aead pn (data.take hdr.stop) (data.drop hdr.stop) with
    | .error err => (.error err, s)
    | .ok plain =>
      match s.used pn with
      | .error err => (.error err, s)
      | .ok s => (.ok plain, s)

theorem invoked_eq_ok {s t : CryptoDxState Aead HpKey} (h : s.invoked = .ok t) :
    0 < s.invocations ∧ t = { s with invocations := s.invocations - 1 } := by
  unfold invoked at h
  split at h
  · cases h
  · next hzero => exact ⟨by omega, (Except.ok.inj h).symm⟩

theorem used_eq_ok {s t : CryptoDxState Aead HpKey} {pn : Nat} (h : s.used pn = .ok t) :
    s.minPn ≤ pn ∧
      t = { s with usedPn := ⟨if s.usedPn.start = s.usedPn.stop then pn else s.usedPn.start,
        max (pn + 1) s.usedPn.stop⟩ } := by
  unfold used at h
  split at h
  · cases h
  · next hlt => exact ⟨by omega, (Except.ok.inj h).symm⟩

-- The state but for the range of packet numbers and the limits.
structure SameKeys (s t : CryptoDxState Aead HpKey) : Prop where
  version : t.version = s.version
  direction : t.direction = s.direction
  epoch : t.epoch = s.epoch
  aead : t.aead = s.aead
  hpkey : t.hpkey = s.hpkey
  minPn : t.minPn = s.minPn

theorem grown_sameKeys (n : Nat) : SameKeys s (s.grown n) := by
  unfold grown
  split
  · exact ⟨rfl, rfl, rfl, rfl, rfl, rfl⟩
  · exact ⟨rfl, rfl, rfl, rfl, rfl, rfl⟩

theorem grown_usedPn (n : Nat) : (s.grown n).usedPn = s.usedPn := by
  unfold grown
  split
  · rfl
  · rfl

-- The ways an encryption can end: the packet numbers move on with a success only.
theorem encrypt_cases (nss : Nss Secret Aead HpKey) (pn : Nat) (hdr : Span) (data : Bytes) :
    (∃ err, (s.encrypt nss pn hdr data).1 = .error err ∧
      (s.encrypt nss pn hdr data).2.usedPn = s.usedPn ∧
      (s.encrypt nss pn hdr data).2.invocations ≤ (s.grown (s.bodyLen nss hdr data)).invocations ∧
      (s.encrypt nss pn hdr data).2.largestPacketLen =
        (s.grown (s.bodyLen nss hdr data)).largestPacketLen) ∨
    (∃ sealed, (s.encrypt nss pn hdr data).1 = .ok sealed ∧ s.minPn ≤ pn ∧
      nss.encryptInPlace s.aead pn (hdr.slice data) (data.drop hdr.stop) = .ok sealed ∧
      (s.encrypt nss pn hdr data).2.usedPn.stop = max (pn + 1) s.usedPn.stop ∧
      (s.encrypt nss pn hdr data).2.invocations + 1 = (s.grown (s.bodyLen nss hdr data)).invocations ∧
      (s.encrypt nss pn hdr data).2.largestPacketLen =
        (s.grown (s.bodyLen nss hdr data)).largestPacketLen) := by
  have hgrown := s.grown_usedPn (s.bodyLen nss hdr data)
  have hsame := s.grown_sameKeys (s.bodyLen nss hdr data)
  unfold encrypt
  dsimp only
  split
  · exact .inl ⟨_, rfl, hgrown, Nat.le_refl _, rfl⟩
  · next t hinvoked =>
    obtain ⟨hpos, rfl⟩ := invoked_eq_ok hinvoked
    dsimp only
    rw [hsame.aead]
    split
    · exact .inl ⟨_, rfl, hgrown, Nat.sub_le _ _, rfl⟩
    · next sealed hsealed =>
      split
      · exact .inl ⟨_, rfl, hgrown, Nat.sub_le _ _, rfl⟩
      · next t hused =>
        obtain ⟨hmin, rfl⟩ := used_eq_ok hused
        refine .inr ⟨sealed, rfl, ?_, hsealed, ?_, ?_, rfl⟩
        · rw [← hsame.minPn]
          exact hmin
        · rw [← hgrown]
        · exact Nat.sub_add_cancel hpos

theorem encrypt_sameKeys (nss : Nss Secret Aead HpKey) (pn : Nat) (hdr : Span) (data : Bytes) :
    SameKeys s (s.encrypt nss pn hdr data).2 := by
  have hsame := s.grown_sameKeys (s.bodyLen nss hdr data)
  unfold encrypt
  dsimp only
  split
  · exact hsame
  · next t hinvoked =>
    obtain ⟨_, rfl⟩ := invoked_eq_ok hinvoked
    split
    · exact ⟨hsame.version, hsame.direction, hsame.epoch, hsame.aead, hsame.hpkey, hsame.minPn⟩
    · split
      · exact ⟨hsame.version, hsame.direction, hsame.epoch, hsame.aead, hsame.hpkey, hsame.minPn⟩
      · next t hused =>
        obtain ⟨_, rfl⟩ := used_eq_ok hused
        exact ⟨hsame.version, hsame.direction, hsame.epoch, hsame.aead, hsame.hpkey, hsame.minPn⟩

theorem decrypt_sameKeys (nss : Nss Secret Aead HpKey) (pn : Nat) (hdr : Span) (data : Bytes) :
    SameKeys s (s.decrypt nss pn hdr data).2 := by
  unfold decrypt
  split
  · exact ⟨rfl, rfl, rfl, rfl, rfl, rfl⟩
  · next t hinvoked =>
    obtain ⟨_, rfl⟩ := invoked_eq_ok hinvoked
    split
    · exact ⟨rfl, rfl, rfl, rfl, rfl, rfl⟩
    · split
      · exact ⟨rfl, rfl, rfl, rfl, rfl, rfl⟩
      · next t hused =>
        obtain ⟨_, rfl⟩ := used_eq_ok hused
        exact ⟨rfl, rfl, rfl, rfl, rfl, rfl⟩

-- An attempt counts where the AEAD is reached, whatever it answers.
theorem decrypt_invocations (nss : Nss Secret Aead HpKey) (pn : Nat) (hdr : Span) (data : Bytes) :
    (s.decrypt nss pn hdr data).2.invocations = s.invocations - 1 := by
  unfold decrypt
  split
  · next err hinvoked =>
    unfold invoked at hinvoked
    split at hinvoked
    · next hzero => simp [hzero]
    · cases hinvoked
  · next t hinvoked =>
    obtain ⟨_, rfl⟩ := invoked_eq_ok hinvoked
    split
    · rfl
    · split
      · rfl
      · next t hused =>
        obtain ⟨_, rfl⟩ := used_eq_ok hused
        rfl

theorem continuation_sameKeys (prev : CryptoDxState Aead HpKey) :
    (s.continuation prev).2 = { s with minPn := prev.nextPn, usedPn := (s.continuation prev).2.usedPn } := by
  unfold continuation
  dsimp only
  split
  · rfl
  · split
    · rfl
    · rfl

-- New keys, used for nothing.
structure Fresh (s : CryptoDxState Aead HpKey) (pn : Nat) : Prop where
  usedPn : s.usedPn = ⟨pn, pn⟩
  minPn : s.minPn = pn
  largest : s.largestPacketLen = initialLargestPacketLen

theorem new_eq_ok {nss : Nss Secret Aead HpKey} {version : Version} {direction : CryptoDxDirection}
    {epoch : Epoch} {secret : Secret} {cipher : Cipher} {minPn : Nat}
    {dx : CryptoDxState Aead HpKey} (h : new nss version direction epoch secret cipher minPn = .ok dx) :
    Fresh dx minPn ∧ dx.version = version ∧ dx.direction = direction ∧ dx.epoch = epoch.toNat ∧
      dx.invocations = limit direction cipher ∧
      nss.aeadNew cipher secret (nss.labelPrefix version) direction = .ok dx.aead := by
  unfold new at h
  cases haead : nss.aeadNew cipher secret (nss.labelPrefix version) direction with
  | error err => rw [haead] at h; cases h
  | ok aead =>
      rw [haead] at h
      cases hhp : nss.hpExtract cipher secret (nss.labelPrefix version ++ "hp") with
      | error err => simp only [hhp] at h; cases h
      | ok hpkey =>
          simp only [hhp] at h
          obtain rfl := Except.ok.inj h
          exact ⟨⟨rfl, rfl, rfl⟩, rfl, rfl, rfl, rfl, rfl⟩

theorem next_eq_ok {nss : Nss Secret Aead HpKey} {secret : Secret} {cipher : Cipher}
    {dx : CryptoDxState Aead HpKey} (h : s.next nss secret cipher = .ok dx) :
    Fresh dx s.nextPn ∧ dx.version = s.version ∧ dx.direction = s.direction ∧ dx.epoch = s.epoch + 1 ∧
      dx.invocations = (if s.direction = .read then s.invocations else limit .write cipher) ∧
      nss.aeadNew cipher secret (nss.labelPrefix s.version) s.direction = .ok dx.aead := by
  unfold next at h
  cases haead : nss.aeadNew cipher secret (nss.labelPrefix s.version) s.direction with
  | error err => rw [haead] at h; cases h
  | ok aead =>
      rw [haead] at h
      cases hhp : nss.hpClone s.hpkey with
      | error err => simp only [hhp] at h; cases h
      | ok hpkey =>
          simp only [hhp] at h
          obtain rfl := Except.ok.inj h
          exact ⟨⟨rfl, rfl, rfl⟩, rfl, rfl, rfl, rfl, rfl⟩

-- Fresh keys go on from any others.
theorem continuation_fresh {pn : Nat} (hs : Fresh s pn) (prev : CryptoDxState Aead HpKey) :
    (s.continuation prev).1 = .ok () ∧ Fresh (s.continuation prev).2 prev.nextPn := by
  unfold continuation
  have hempty : s.usedPn.isEmpty = true := by simp [Span.isEmpty, hs.usedPn]
  rw [if_pos hempty]
  exact ⟨rfl, ⟨rfl, rfl, hs.largest⟩⟩

end CryptoDxState

end NeverFox.Quic
