import NeverFox.Quic.Keys

namespace NeverFox.Quic

variable {Secret Aead HpKey : Type}

-- The calls that the connection makes on its keys.
inductive Op (Secret : Type)
  | init (versions : List Version) (role : Role) (dcid : Bytes) (minPn : Nat)
  | initServer (version : Version) (dcid : Bytes) (minPn : Nat)
  | confirmVersion (orig confirmed : Version)
  | set0rttKeys (version : Version) (dir : CryptoDxDirection) (secret : Secret) (cipher : Cipher)
  | discard (space : PacketNumberSpace)
  | discard0rttKeys
  | setHandshakeKeys (version : Version) (writeSecret readSecret : Secret) (cipher : Cipher)
  | setApplicationWriteKey (version : Version) (secret : Secret)
  | setApplicationReadKey (version : Version) (secret : Secret) (expire0rtt : Nat)
  | initiateKeyUpdate (largestAcknowledged : Option Nat)
  | autoUpdate
  | keyUpdateReceived (expiration : Nat)
  | checkKeyUpdate (now : Nat)
  | checkPnOverlap
  | rxHp (version : Version) (epoch : Epoch)
  | encrypt (version : Version) (space : PacketNumberSpace) (pn : Nat) (hdr : Span) (data : Bytes)
  | decrypt (version : Version) (epoch : Epoch) (keyPhase : Bool) (pn : Nat) (hdr : Span) (data : Bytes)

namespace CryptoStates

variable (nss : Nss Secret Aead HpKey) (s : CryptoStates Secret Aead HpKey)

-- An operation on the keys that a slot holds.
def through (slot : Slot)
    (f : CryptoDxState Aead HpKey → Except Error Bytes × CryptoDxState Aead HpKey) :
    Option (Except Error Unit × CryptoStates Secret Aead HpKey) :=
  (s.deref slot).map fun dx => ((f dx).1.map fun _ => (), s.assign slot (f dx).2)

-- None where the code panics or has no keys to make the call on.
def call : Op Secret → Option (Except Error Unit × CryptoStates Secret Aead HpKey)
  | .init versions role dcid minPn => some (init nss role dcid minPn s versions)
  | .initServer version dcid minPn => some (s.initServer nss version dcid minPn)
  | .confirmVersion orig confirmed => some (s.confirmVersion orig confirmed)
  | .set0rttKeys version dir secret cipher => some (s.set0rttKeys nss version dir secret cipher)
  | .discard space => (s.discard space).map fun r => (.ok (), r.2)
  | .discard0rttKeys => s.discard0rttKeys.map fun r => (.ok (), r)
  | .setHandshakeKeys version write read cipher => some (s.setHandshakeKeys nss version write read cipher)
  | .setApplicationWriteKey version secret => some (s.setApplicationWriteKey nss version secret)
  | .setApplicationReadKey version secret expire => some (s.setApplicationReadKey nss version secret expire)
  | .initiateKeyUpdate largest => some (s.initiateKeyUpdate nss largest)
  | .autoUpdate => some (s.autoUpdate nss)
  | .keyUpdateReceived expiration => some (s.keyUpdateReceived nss expiration)
  | .checkKeyUpdate now => some (s.checkKeyUpdate nss now)
  | .checkPnOverlap => some s.checkPnOverlap
  | .rxHp version epoch => some (.ok (), (s.rxHp version epoch).2)
  | .encrypt version space pn hdr data =>
    (s.selectTxMut version space).bind fun r => s.through r.2 (·.encrypt nss pn hdr data)
  | .decrypt version epoch keyPhase pn hdr data =>
    (s.rx version epoch keyPhase).bind fun slot => s.through slot (·.decrypt nss pn hdr data)

end CryptoStates

-- A packet of the application data space that was protected: the epoch of its
-- keys, its number and the length of its body.
structure Sealed where
  epoch : Nat
  pn : Nat
  bodyLen : Nat
  deriving DecidableEq

-- An attempt to open a packet with application keys: whether these were the
-- current ones, and whether it opened.
structure Attempt where
  current : Bool
  epoch : Nat
  pn : Nat
  opened : Bool
  deriving DecidableEq

namespace CryptoStates

variable (nss : Nss Secret Aead HpKey) (s : CryptoStates Secret Aead HpKey)

-- What a call protects, of the application data space.
def seals : Op Secret → Except Error Unit → List Sealed
  | .encrypt version .applicationData pn hdr data, .ok _ =>
    match (s.selectTxMut version .applicationData).bind fun r => s.deref r.2 with
    | some dx => [⟨dx.epoch, pn, dx.bodyLen nss hdr data⟩]
    | none => []
  | _, _ => []

-- What a call gives the AEAD to open with application keys.
def attempts : Op Secret → Except Error Unit → List Attempt
  | .decrypt version .applicationData keyPhase pn _ _, result =>
    match s.rx version .applicationData keyPhase with
    | some slot =>
      match s.deref slot with
      | some dx => if dx.invocations = 0 then [] else [⟨slot = .appRead, dx.epoch, pn, result.isOk⟩]
      | none => []
    | none => []
  | _, _ => []

end CryptoStates

-- One end of a connection: its keys, and beside them what it protected and
-- tried to open in the application data space, in order.
structure Endpoint (Secret Aead HpKey : Type) where
  keys : CryptoStates Secret Aead HpKey := {}
  sent : List Sealed := []
  tried : List Attempt := []

def step (nss : Nss Secret Aead HpKey) (e : Endpoint Secret Aead HpKey) (op : Op Secret) :
    Option (Endpoint Secret Aead HpKey) :=
  (e.keys.call nss op).map fun r => {
    keys := r.2
    sent := e.sent ++ e.keys.seals nss op r.1
    tried := e.tried ++ e.keys.attempts op r.1 }

-- The debug assertions on the way of a call, and the bounds of its ranges.
def Asserted (nss : Nss Secret Aead HpKey) (s : CryptoStates Secret Aead HpKey) : Op Secret → Prop
  | .setApplicationWriteKey _ _ => s.appWrite = none ∧ s.cipher ≠ none
  | .setApplicationReadKey _ _ _ => s.appWrite ≠ none ∧ s.appRead = none
  | .autoUpdate => s.appWrite.any (·.dx.shouldUpdate) = true → s.readUpdateTime = none
  | .keyUpdateReceived _ => s.readUpdateTime = none ∧ s.has0rttRead = false
  | .encrypt version space pn hdr data => ∀ r ∈ s.selectTxMut version space, ∀ dx ∈ s.deref r.2,
      dx.direction = .write ∧ dx.bodyLen nss hdr data ≤ 65535 ∧ pn = dx.nextPn ∧
        hdr.start ≤ hdr.stop ∧ hdr.stop + nss.expansion dx.aead ≤ data.length
  | .decrypt version epoch keyPhase _ _ _ => ∀ slot ∈ s.rx version epoch keyPhase,
      ∀ dx ∈ s.deref slot, dx.direction = .read
  | _ => True

instance (nss : Nss Secret Aead HpKey) (s : CryptoStates Secret Aead HpKey) (op : Op Secret) :
    Decidable (Asserted nss s op) := by
  cases op <;> (unfold Asserted; infer_instance)

-- The keys of the application data space.
structure AppKeys (Secret Aead HpKey : Type) where
  zeroRtt : Option (CryptoDxState Aead HpKey)
  cipher : Option Cipher
  appWrite : Option (CryptoDxAppData Secret Aead HpKey)
  appRead : Option (CryptoDxAppData Secret Aead HpKey)
  appReadNext : Option (CryptoDxAppData Secret Aead HpKey)
  readUpdateTime : Option Nat

namespace CryptoStates

variable (s : CryptoStates Secret Aead HpKey)

def app : AppKeys Secret Aead HpKey where
  zeroRtt := s.zeroRtt
  cipher := s.cipher
  appWrite := s.appWrite
  appRead := s.appRead
  appReadNext := s.appReadNext
  readUpdateTime := s.readUpdateTime

@[simp] theorem app_setInitial (version : Version) (state : Option (CryptoState Aead HpKey)) :
    (s.setInitial version state).app = s.app := rfl

theorem app_maybeContinueInitialRx (version : Version) : (s.maybeContinueInitialRx version).app = s.app := by
  unfold maybeContinueInitialRx
  split
  · rfl
  · split
    · rfl
    · split
      · rfl
      · split
        · rfl
        · rfl

theorem app_rxHp (version : Version) (epoch : Epoch) : (s.rxHp version epoch).2.app = s.app := by
  cases epoch with
  | initial => exact s.app_maybeContinueInitialRx version
  | zeroRtt => rfl
  | handshake => rfl
  | applicationData => rfl

theorem app_initVersion (nss : Nss Secret Aead HpKey) (role : Role) (dcid : Bytes) (minPn : Nat)
    (v : Version) : (s.initVersion nss role dcid minPn v).2.app = s.app := by
  unfold initVersion
  split
  split
  · rfl
  · rfl
  · split
    · rfl
    · split
      · rfl
      · split
        · rfl
        · rfl

theorem app_init (nss : Nss Secret Aead HpKey) (role : Role) (dcid : Bytes) (minPn : Nat)
    (s : CryptoStates Secret Aead HpKey) (versions : List Version) :
    (init nss role dcid minPn s versions).2.app = s.app := by
  induction versions generalizing s with
  | nil => rfl
  | cons v versions ih =>
      have hv := s.app_initVersion nss role dcid minPn v
      unfold init
      split
      · next heq => rw [heq] at hv; exact hv
      · next heq => rw [heq] at hv; rw [ih, hv]

theorem app_initServer (nss : Nss Secret Aead HpKey) (version : Version) (dcid : Bytes) (minPn : Nat) :
    (s.initServer nss version dcid minPn).2.app = s.app := by
  unfold initServer
  split
  · exact app_init ..
  · rfl

theorem app_setHandshakeKeys (nss : Nss Secret Aead HpKey) (version : Version) (write read : Secret)
    (cipher : Cipher) :
    (s.setHandshakeKeys nss version write read cipher).2.app = { s.app with cipher := some cipher } := by
  unfold setHandshakeKeys
  dsimp only
  split
  · rfl
  · rfl
  · rfl

theorem app_confirmVersion (orig confirmed : Version) : (s.confirmVersion orig confirmed).2.app = s.app := by
  unfold confirmVersion
  split
  · rfl
  · split
    · rfl
    · dsimp only
      split
      · rfl
      · split
        · rfl
        · split
          · rfl
          · rfl

end CryptoStates

-- The ways a call can change the keys of the application data space.
inductive AppStep (nss : Nss Secret Aead HpKey) (s : CryptoStates Secret Aead HpKey) :
    Op Secret → Except Error Unit → AppKeys Secret Aead HpKey → Prop
  | other {op : Op Secret} {result : Except Error Unit} (hseals : s.seals nss op result = [])
      (hattempts : s.attempts op result = []) : AppStep nss s op result s.app
  | encryptWrite {version : Version} {pn : Nat} {hdr : Span} {data : Bytes}
      {a : CryptoDxAppData Secret Aead HpKey} (ha : s.appWrite = some a) :
      AppStep nss s (.encrypt version .applicationData pn hdr data)
        ((a.dx.encrypt nss pn hdr data).1.map fun _ => ())
        { s.app with appWrite := some { a with dx := (a.dx.encrypt nss pn hdr data).2 } }
  | encryptZeroRtt {version : Version} {pn : Nat} {hdr : Span} {data : Bytes}
      {z : CryptoDxState Aead HpKey} (ha : s.appWrite = none) (hz : s.zeroRtt = some z) :
      AppStep nss s (.encrypt version .applicationData pn hdr data)
        ((z.encrypt nss pn hdr data).1.map fun _ => ())
        { s.app with zeroRtt := some (z.encrypt nss pn hdr data).2 }
  | decryptRead {version : Version} {keyPhase : Bool} {pn : Nat} {hdr : Span} {data : Bytes}
      {a : CryptoDxAppData Secret Aead HpKey} (ha : s.appRead = some a)
      (hphase : s.rx version .applicationData keyPhase = some .appRead) :
      AppStep nss s (.decrypt version .applicationData keyPhase pn hdr data)
        ((a.dx.decrypt nss pn hdr data).1.map fun _ => ())
        { s.app with appRead := some { a with dx := (a.dx.decrypt nss pn hdr data).2 } }
  | decryptNext {version : Version} {keyPhase : Bool} {pn : Nat} {hdr : Span} {data : Bytes}
      {a : CryptoDxAppData Secret Aead HpKey} (ha : s.appReadNext = some a)
      (hphase : s.rx version .applicationData keyPhase = some .appReadNext) :
      AppStep nss s (.decrypt version .applicationData keyPhase pn hdr data)
        ((a.dx.decrypt nss pn hdr data).1.map fun _ => ())
        { s.app with appReadNext := some { a with dx := (a.dx.decrypt nss pn hdr data).2 } }
  | decryptZeroRtt {version : Version} {keyPhase : Bool} {pn : Nat} {hdr : Span} {data : Bytes}
      {z : CryptoDxState Aead HpKey} (hz : s.zeroRtt = some z) (hread : z.direction = .read) :
      AppStep nss s (.decrypt version .zeroRtt keyPhase pn hdr data)
        ((z.decrypt nss pn hdr data).1.map fun _ => ())
        { s.app with zeroRtt := some (z.decrypt nss pn hdr data).2 }
  | set0rtt {version : Version} {dir : CryptoDxDirection} {secret : Secret} {cipher : Cipher}
      {z : CryptoDxState Aead HpKey}
      (hz : CryptoDxState.new nss version dir .zeroRtt secret cipher 0 = .ok z) :
      AppStep nss s (.set0rttKeys version dir secret cipher) (.ok ()) { s.app with zeroRtt := some z }
  | discard0rtt (hr : s.appRead = none) :
      AppStep nss s .discard0rttKeys (.ok ()) { s.app with zeroRtt := none }
  | setCipher {version : Version} {write read : Secret} {cipher : Cipher} {result : Except Error Unit} :
      AppStep nss s (.setHandshakeKeys version write read cipher) result { s.app with cipher := some cipher }
  | installWrite {version : Version} {secret : Secret} {app app' : CryptoDxAppData Secret Aead HpKey}
      (happ : s.newAppData nss version .write secret = .ok app)
      (happ' : s.afterZeroRtt .write app = .ok app') :
      AppStep nss s (.setApplicationWriteKey version secret) (.ok ())
        { s.app with zeroRtt := none, appWrite := some app' }
  | installRead {version : Version} {secret : Secret} {expire : Nat}
      {app app' next : CryptoDxAppData Secret Aead HpKey}
      (happ : s.newAppData nss version .read secret = .ok app) (happ' : s.afterZeroRtt .read app = .ok app')
      (hnext : app'.next nss = .ok next) :
      AppStep nss s (.setApplicationReadKey version secret expire) (.ok ())
        { s.app with
          readUpdateTime := if s.zeroRtt.isSome then some expire else s.readUpdateTime
          appReadNext := some next
          appRead := some app' }
  | installReadFailed {version : Version} {secret : Secret} {expire : Nat} {err : Error} :
      AppStep nss s (.setApplicationReadKey version secret expire) (.error err)
        { s.app with readUpdateTime := if s.zeroRtt.isSome then some expire else s.readUpdateTime }
  | updateWrite {op : Op Secret} {w r w' : CryptoDxAppData Secret Aead HpKey}
      (hseals : s.seals nss op (.ok ()) = []) (hattempts : s.attempts op (.ok ()) = [])
      (hw : s.appWrite = some w) (hr : s.appRead = some r) (hepoch : w.epoch = r.epoch)
      (hnext : w.next nss = .ok w') :
      AppStep nss s op (.ok ()) { s.app with appWrite := some w' }
  | receivedFirst {expiration : Nat} {w r w' : CryptoDxAppData Secret Aead HpKey}
      (hw : s.appWrite = some w) (hr : s.appRead = some r) (hepoch : w.epoch = r.epoch)
      (hnext : w.next nss = .ok w') :
      AppStep nss s (.keyUpdateReceived expiration) (.ok ())
        { s.app with
          zeroRtt := if s.has0rttRead then none else s.zeroRtt
          appWrite := some w'
          readUpdateTime := some expiration }
  | receivedSecond {expiration : Nat} {w r : CryptoDxAppData Secret Aead HpKey}
      (hw : s.appWrite = some w) (hr : s.appRead = some r) (hepoch : w.epoch ≠ r.epoch) :
      AppStep nss s (.keyUpdateReceived expiration) (.ok ())
        { s.app with
          zeroRtt := if s.has0rttRead then none else s.zeroRtt
          readUpdateTime := some expiration }
  | expire0rtt {now expiry : Nat} (ht : s.readUpdateTime = some expiry) (hz : s.has0rttRead = true) :
      AppStep nss s (.checkKeyUpdate now) (.ok ()) { s.app with zeroRtt := none, readUpdateTime := none }
  | rotate {now expiry : Nat} {n n' : CryptoDxAppData Secret Aead HpKey}
      (ht : s.readUpdateTime = some expiry) (hz : s.has0rttRead = false) (hn : s.appReadNext = some n)
      (hnext : n.next nss = .ok n') :
      AppStep nss s (.checkKeyUpdate now) (.ok ())
        { s.app with appRead := some n, appReadNext := some n', readUpdateTime := none }
  | rotateFailed {now : Nat} {err : Error} :
      AppStep nss s (.checkKeyUpdate now) (.error err)
        { s.app with appRead := s.appReadNext, appReadNext := s.appRead }
  | overlap {n r : CryptoDxAppData Secret Aead HpKey} (ht : s.readUpdateTime ≠ none)
      (hn : s.appReadNext = some n) (hr : s.appRead = some r) :
      AppStep nss s .checkPnOverlap (n.dx.continuation r.dx).1
        { s.app with appReadNext := some { n with dx := (n.dx.continuation r.dx).2 } }

namespace CryptoStates

variable {nss : Nss Secret Aead HpKey} {s s' : CryptoStates Secret Aead HpKey} {op : Op Secret}
  {result : Except Error Unit}

theorem through_eq_some {slot : Slot}
    {f : CryptoDxState Aead HpKey → Except Error Bytes × CryptoDxState Aead HpKey}
    (h : s.through slot f = some (result, s')) :
    ∃ dx, s.deref slot = some dx ∧ result = (f dx).1.map (fun _ => ()) ∧ s' = s.assign slot (f dx).2 := by
  obtain ⟨dx, hdx, heq⟩ := Option.map_eq_some_iff.mp h
  obtain ⟨hresult, hs'⟩ := Prod.mk.inj heq
  exact ⟨dx, hdx, hresult.symm, hs'.symm⟩

theorem appStep_encrypt {version : Version} {space : PacketNumberSpace} {pn : Nat} {hdr : Span} {data : Bytes}
    (h : s.call nss (.encrypt version space pn hdr data) = some (result, s')) :
    AppStep nss s (.encrypt version space pn hdr data) result s'.app := by
  obtain ⟨⟨epoch, slot⟩, hsel, hthrough⟩ := Option.bind_eq_some_iff.mp h
  obtain ⟨dx, hdx, rfl, rfl⟩ := through_eq_some hthrough
  cases space with
  | initial =>
      obtain ⟨_, _, heq⟩ := Option.map_eq_some_iff.mp hsel
      obtain ⟨_, rfl⟩ := Prod.mk.inj heq
      exact .other rfl rfl
  | handshake =>
      obtain ⟨_, _, heq⟩ := Option.map_eq_some_iff.mp hsel
      obtain ⟨_, rfl⟩ := Prod.mk.inj heq
      exact .other rfl rfl
  | applicationData =>
      unfold selectTxMut at hsel
      cases ha : s.appWrite with
      | some a =>
          simp only [ha, Option.isSome_some, if_true, Option.some.injEq, Prod.mk.injEq] at hsel
          obtain ⟨_, rfl⟩ := hsel
          simp only [deref, ha, Option.map_some, Option.some.injEq] at hdx
          subst hdx
          have happ : (s.assign .appWrite (a.dx.encrypt nss pn hdr data).2).app =
              { s.app with appWrite := some { a with dx := (a.dx.encrypt nss pn hdr data).2 } } := by
            simp only [assign, app, ha, Option.map_some]
          rw [happ]
          exact .encryptWrite ha
      | none =>
          simp only [ha, Option.isSome_none, Bool.false_eq_true, if_false] at hsel
          obtain ⟨z, hz, heq⟩ := Option.map_eq_some_iff.mp hsel
          obtain ⟨_, rfl⟩ := Prod.mk.inj heq
          simp only [deref, hz, Option.some.injEq] at hdx
          subst hdx
          have happ : (s.assign .zeroRtt (z.encrypt nss pn hdr data).2).app =
              { s.app with zeroRtt := some (z.encrypt nss pn hdr data).2 } := by
            simp only [assign, app, hz, Option.map_some]
          rw [happ]
          exact .encryptZeroRtt ha hz

-- A packet of the application data space goes to the current read keys or to
-- the next.
theorem decrypt_application {version : Version} {keyPhase : Bool} {pn : Nat} {hdr : Span} {data : Bytes}
    (h : s.call nss (.decrypt version .applicationData keyPhase pn hdr data) = some (result, s')) :
    ∃ slot a, s.rx version .applicationData keyPhase = some slot ∧
      result = (a.dx.decrypt nss pn hdr data).1.map (fun _ => ()) ∧
      (slot = .appRead ∧ s.appRead = some a ∧
          s'.app = { s.app with appRead := some { a with dx := (a.dx.decrypt nss pn hdr data).2 } } ∨
        slot = .appReadNext ∧ s.appReadNext = some a ∧
          s'.app = { s.app with appReadNext := some { a with dx := (a.dx.decrypt nss pn hdr data).2 } }) := by
  obtain ⟨slot, hslot, hthrough⟩ := Option.bind_eq_some_iff.mp h
  obtain ⟨dx, hdx, rfl, rfl⟩ := through_eq_some hthrough
  have hphase := hslot
  simp only [rx] at hslot
  split at hslot
  · obtain rfl := Option.some.inj hslot
    obtain ⟨a, ha, rfl⟩ := Option.map_eq_some_iff.mp hdx
    refine ⟨.appRead, a, hphase, rfl, .inl ⟨rfl, ha, ?_⟩⟩
    simp only [assign, app, ha, Option.map_some]
  · obtain rfl := Option.some.inj hslot
    obtain ⟨a, ha, rfl⟩ := Option.map_eq_some_iff.mp hdx
    refine ⟨.appReadNext, a, hphase, rfl, .inr ⟨rfl, ha, ?_⟩⟩
    simp only [assign, app, ha, Option.map_some]
  · cases hslot

theorem appStep_decrypt {version : Version} {epoch : Epoch} {keyPhase : Bool} {pn : Nat} {hdr : Span}
    {data : Bytes} (h : s.call nss (.decrypt version epoch keyPhase pn hdr data) = some (result, s')) :
    AppStep nss s (.decrypt version epoch keyPhase pn hdr data) result s'.app := by
  obtain ⟨slot, hslot, hthrough⟩ := Option.bind_eq_some_iff.mp h
  obtain ⟨dx, hdx, rfl, rfl⟩ := through_eq_some hthrough
  cases epoch with
  | initial =>
      obtain ⟨_, _, rfl⟩ := Option.map_eq_some_iff.mp hslot
      exact .other rfl rfl
  | handshake =>
      obtain ⟨_, _, rfl⟩ := Option.map_eq_some_iff.mp hslot
      exact .other rfl rfl
  | zeroRtt =>
      obtain ⟨z, hz, rfl⟩ := Option.map_eq_some_iff.mp hslot
      obtain ⟨hz, hread⟩ := Option.filter_eq_some_iff.mp hz
      simp only [deref, hz, Option.some.injEq] at hdx
      subst hdx
      have happ : (s.assign .zeroRtt (z.decrypt nss pn hdr data).2).app =
          { s.app with zeroRtt := some (z.decrypt nss pn hdr data).2 } := by
        simp only [assign, app, hz, Option.map_some]
      rw [happ]
      exact .decryptZeroRtt hz (of_decide_eq_true hread)
  | applicationData =>
      obtain ⟨_, a, hphase, hresult, ⟨rfl, ha, happ⟩ | ⟨rfl, ha, happ⟩⟩ := decrypt_application h
      · rw [hresult, happ]
        exact .decryptRead ha hphase
      · rw [hresult, happ]
        exact .decryptNext ha hphase

-- One step of the write keys, or none.
theorem maybeUpdateWrite_cases {update : Except Error Bool}
    (h : s.maybeUpdateWrite nss = (update, s')) :
    (s' = s ∧ (∃ err, update = .error err)) ∨
      (s' = s ∧ update = .ok false ∧
        ∃ w r, s.appWrite = some w ∧ s.appRead = some r ∧ w.epoch ≠ r.epoch) ∨
      (update = .ok true ∧ ∃ w r w', s.appWrite = some w ∧ s.appRead = some r ∧ w.epoch = r.epoch ∧
        w.next nss = .ok w' ∧ s' = { s with appWrite := some w' }) := by
  unfold maybeUpdateWrite at h
  split at h
  · obtain ⟨rfl, rfl⟩ := Prod.mk.inj h
    exact .inl ⟨rfl, _, rfl⟩
  · obtain ⟨rfl, rfl⟩ := Prod.mk.inj h
    exact .inl ⟨rfl, _, rfl⟩
  · next w r hw hr =>
    split at h
    · next hepoch =>
      split at h
      · obtain ⟨rfl, rfl⟩ := Prod.mk.inj h
        exact .inl ⟨rfl, _, rfl⟩
      · next w' hnext =>
        obtain ⟨rfl, rfl⟩ := Prod.mk.inj h
        exact .inr (.inr ⟨rfl, w, r, w', hw, hr, hepoch, hnext, rfl⟩)
    · next hepoch =>
      obtain ⟨rfl, rfl⟩ := Prod.mk.inj h
      exact .inr (.inl ⟨rfl, rfl, w, r, hw, hr, hepoch⟩)

theorem appStep_initiateKeyUpdate {largest : Option Nat}
    (h : s.initiateKeyUpdate nss largest = (result, s')) :
    AppStep nss s (.initiateKeyUpdate largest) result s'.app := by
  unfold initiateKeyUpdate at h
  split at h
  · obtain ⟨rfl, rfl⟩ := Prod.mk.inj h
    exact .other rfl rfl
  · split at h
    · cases hm : s.maybeUpdateWrite nss with
      | mk update mid =>
          rw [hm] at h
          obtain ⟨rfl, err, rfl⟩ | ⟨rfl, rfl, _⟩ | ⟨rfl, w, r, w', hw, hr, hepoch, hnext, rfl⟩ :=
            maybeUpdateWrite_cases hm
          · obtain ⟨rfl, rfl⟩ := Prod.mk.inj h
            exact .other rfl rfl
          · obtain ⟨rfl, rfl⟩ := Prod.mk.inj h
            exact .other rfl rfl
          · obtain ⟨rfl, rfl⟩ := Prod.mk.inj h
            exact .updateWrite rfl rfl hw hr hepoch hnext
    · obtain ⟨rfl, rfl⟩ := Prod.mk.inj h
      exact .other rfl rfl

theorem appStep_autoUpdate (h : s.autoUpdate nss = (result, s')) :
    AppStep nss s .autoUpdate result s'.app := by
  unfold autoUpdate at h
  split at h
  · cases hm : s.maybeUpdateWrite nss with
    | mk update mid =>
        rw [hm] at h
        obtain ⟨rfl, err, rfl⟩ | ⟨rfl, rfl, _⟩ | ⟨rfl, w, r, w', hw, hr, hepoch, hnext, rfl⟩ :=
          maybeUpdateWrite_cases hm
        · obtain ⟨rfl, rfl⟩ := Prod.mk.inj h
          exact .other rfl rfl
        · obtain ⟨rfl, rfl⟩ := Prod.mk.inj h
          exact .other rfl rfl
        · obtain ⟨rfl, rfl⟩ := Prod.mk.inj h
          exact .updateWrite rfl rfl hw hr hepoch hnext
  · obtain ⟨rfl, rfl⟩ := Prod.mk.inj h
    exact .other rfl rfl

theorem appStep_keyUpdateReceived {expiration : Nat} (h : s.keyUpdateReceived nss expiration = (result, s')) :
    AppStep nss s (.keyUpdateReceived expiration) result s'.app := by
  unfold keyUpdateReceived at h
  cases hm : s.maybeUpdateWrite nss with
  | mk update mid =>
      rw [hm] at h
      obtain ⟨rfl, err, rfl⟩ | ⟨rfl, rfl, w, r, hw, hr, hepoch⟩ |
        ⟨rfl, w, r, w', hw, hr, hepoch, hnext, rfl⟩ := maybeUpdateWrite_cases hm
      · obtain ⟨rfl, rfl⟩ := Prod.mk.inj h
        exact .other rfl rfl
      · obtain ⟨rfl, rfl⟩ := Prod.mk.inj h
        exact .receivedSecond hw hr hepoch
      · obtain ⟨rfl, rfl⟩ := Prod.mk.inj h
        exact .receivedFirst hw hr hepoch hnext

theorem appStep_checkKeyUpdate {now : Nat} (h : s.checkKeyUpdate nss now = (result, s')) :
    AppStep nss s (.checkKeyUpdate now) result s'.app := by
  unfold checkKeyUpdate at h
  split at h
  · obtain ⟨rfl, rfl⟩ := Prod.mk.inj h
    exact .other rfl rfl
  · next expiry ht =>
    split at h
    · obtain ⟨rfl, rfl⟩ := Prod.mk.inj h
      exact .other rfl rfl
    · split at h
      · next hz =>
        obtain ⟨rfl, rfl⟩ := Prod.mk.inj h
        exact .expire0rtt ht hz
      · next hz =>
        dsimp only at h
        split at h
        · obtain ⟨rfl, rfl⟩ := Prod.mk.inj h
          exact .rotateFailed
        · next n hn =>
          split at h
          · obtain ⟨rfl, rfl⟩ := Prod.mk.inj h
            exact .rotateFailed
          · next n' hnext =>
            obtain ⟨rfl, rfl⟩ := Prod.mk.inj h
            have happ : AppStep nss s (.checkKeyUpdate now) _ _ :=
              .rotate ht (Bool.eq_false_iff.mpr hz) hn hnext
            simp only [app, hn] at happ ⊢
            exact happ

theorem appStep_checkPnOverlap (h : s.checkPnOverlap = (result, s')) :
    AppStep nss s .checkPnOverlap result s'.app := by
  unfold checkPnOverlap at h
  split at h
  · next ht =>
    split at h
    · obtain ⟨rfl, rfl⟩ := Prod.mk.inj h
      exact .other rfl rfl
    · obtain ⟨rfl, rfl⟩ := Prod.mk.inj h
      exact .other rfl rfl
    · next n r hn hr =>
      obtain ⟨rfl, rfl⟩ := Prod.mk.inj h
      exact .overlap (Option.isSome_iff_ne_none.mp ht) hn hr
  · obtain ⟨rfl, rfl⟩ := Prod.mk.inj h
    exact .other rfl rfl

theorem appStep_setApplicationWriteKey {version : Version} {secret : Secret}
    (h : s.setApplicationWriteKey nss version secret = (result, s')) :
    AppStep nss s (.setApplicationWriteKey version secret) result s'.app := by
  unfold setApplicationWriteKey at h
  split at h
  · obtain ⟨rfl, rfl⟩ := Prod.mk.inj h
    exact .other rfl rfl
  · next app' hbind =>
    obtain ⟨rfl, rfl⟩ := Prod.mk.inj h
    cases happ : s.newAppData nss version .write secret with
    | error err => rw [happ] at hbind; cases hbind
    | ok app => rw [happ] at hbind; exact .installWrite happ hbind

theorem appStep_setApplicationReadKey {version : Version} {secret : Secret} {expire : Nat}
    (h : s.setApplicationReadKey nss version secret expire = (result, s')) :
    AppStep nss s (.setApplicationReadKey version secret expire) result s'.app := by
  have htimer : (if s.zeroRtt.isSome then { s with readUpdateTime := some expire } else s).app =
      { s.app with readUpdateTime := if s.zeroRtt.isSome then some expire else s.readUpdateTime } := by
    split
    · rfl
    · rfl
  unfold setApplicationReadKey at h
  split at h
  · obtain ⟨rfl, rfl⟩ := Prod.mk.inj h
    exact .other rfl rfl
  · next app' hbind =>
    dsimp only at h
    split at h
    · obtain ⟨rfl, rfl⟩ := Prod.mk.inj h
      rw [htimer]
      exact .installReadFailed
    · next next hnext =>
      obtain ⟨rfl, rfl⟩ := Prod.mk.inj h
      cases happ : s.newAppData nss version .read secret with
      | error err => rw [happ] at hbind; cases hbind
      | ok app =>
          rw [happ] at hbind
          have hstep : AppStep nss _ (.setApplicationReadKey version secret expire) _ _ :=
            .installRead happ hbind hnext
          have hfields := congrArg AppKeys.readUpdateTime htimer
          have hzero := congrArg AppKeys.zeroRtt htimer
          have hcipher := congrArg AppKeys.cipher htimer
          have hwrite := congrArg AppKeys.appWrite htimer
          simp only [CryptoStates.app] at hfields hzero hcipher hwrite hstep ⊢
          rw [hfields, hzero, hcipher, hwrite]
          exact hstep

-- Every call is one of these steps.
theorem call_appStep (h : s.call nss op = some (result, s')) : AppStep nss s op result s'.app := by
  cases op with
  | init versions role dcid minPn =>
      have heq : init nss role dcid minPn s versions = (result, s') := Option.some.inj h
      have happ := app_init nss role dcid minPn s versions
      rw [heq] at happ
      rw [show s'.app = s.app from happ]
      exact .other rfl rfl
  | initServer version dcid minPn =>
      have heq : s.initServer nss version dcid minPn = (result, s') := Option.some.inj h
      have happ := s.app_initServer nss version dcid minPn
      rw [heq] at happ
      rw [show s'.app = s.app from happ]
      exact .other rfl rfl
  | confirmVersion orig confirmed =>
      have heq : s.confirmVersion orig confirmed = (result, s') := Option.some.inj h
      have happ := s.app_confirmVersion orig confirmed
      rw [heq] at happ
      rw [show s'.app = s.app from happ]
      exact .other rfl rfl
  | set0rttKeys version dir secret cipher =>
      have heq : s.set0rttKeys nss version dir secret cipher = (result, s') := Option.some.inj h
      unfold set0rttKeys at heq
      split at heq
      · obtain ⟨rfl, rfl⟩ := Prod.mk.inj heq
        exact .other rfl rfl
      · next z hz =>
        obtain ⟨rfl, rfl⟩ := Prod.mk.inj heq
        exact .set0rtt hz
  | discard space =>
      obtain ⟨r, hr, heq⟩ := Option.map_eq_some_iff.mp h
      obtain ⟨rfl, rfl⟩ := Prod.mk.inj heq
      cases space with
      | initial => cases hr; exact .other rfl rfl
      | handshake => cases hr; exact .other rfl rfl
      | applicationData => cases hr
  | discard0rttKeys =>
      obtain ⟨r, hr, heq⟩ := Option.map_eq_some_iff.mp h
      obtain ⟨rfl, rfl⟩ := Prod.mk.inj heq
      unfold discard0rttKeys at hr
      split at hr
      · next hnone =>
        obtain rfl := Option.some.inj hr
        exact .discard0rtt (Option.isNone_iff_eq_none.mp hnone)
      · cases hr
  | setHandshakeKeys version write read cipher =>
      have heq : s.setHandshakeKeys nss version write read cipher = (result, s') := Option.some.inj h
      have happ := s.app_setHandshakeKeys nss version write read cipher
      rw [heq] at happ
      rw [show s'.app = { s.app with cipher := some cipher } from happ]
      exact .setCipher
  | setApplicationWriteKey version secret => exact appStep_setApplicationWriteKey (Option.some.inj h)
  | setApplicationReadKey version secret expire => exact appStep_setApplicationReadKey (Option.some.inj h)
  | initiateKeyUpdate largest => exact appStep_initiateKeyUpdate (Option.some.inj h)
  | autoUpdate => exact appStep_autoUpdate (Option.some.inj h)
  | keyUpdateReceived expiration => exact appStep_keyUpdateReceived (Option.some.inj h)
  | checkKeyUpdate now => exact appStep_checkKeyUpdate (Option.some.inj h)
  | checkPnOverlap => exact appStep_checkPnOverlap (Option.some.inj h)
  | rxHp version epoch =>
      obtain ⟨rfl, rfl⟩ := Prod.mk.inj (Option.some.inj h)
      rw [show _ = s.app from s.app_rxHp version epoch]
      exact .other rfl rfl
  | encrypt version space pn hdr data => exact appStep_encrypt h
  | decrypt version epoch keyPhase pn hdr data => exact appStep_decrypt h

end CryptoStates

end NeverFox.Quic
