import Mathlib.Logic.Function.Basic
import NeverFox.Lib.Run
import NeverFox.Quic.Protection

namespace NeverFox.Quic

variable {Secret Aead HpKey : Type}

structure CryptoState (Aead HpKey : Type) where
  tx : CryptoDxState Aead HpKey
  rx : CryptoDxState Aead HpKey

-- One direction of application keys, with the secret of the keys after them.
structure CryptoDxAppData (Secret Aead HpKey : Type) where
  dx : CryptoDxState Aead HpKey
  cipher : Cipher
  nextSecret : Secret

namespace CryptoDxAppData

def updateSecret (nss : Nss Secret Aead HpKey) (cipher : Cipher) (secret : Secret) : Except Error Secret :=
  nss.expandLabel cipher secret "quic ku"

def new (nss : Nss Secret Aead HpKey) (version : Version) (dir : CryptoDxDirection) (secret : Secret)
    (cipher : Cipher) : Except Error (CryptoDxAppData Secret Aead HpKey) := do
  let dx ← CryptoDxState.new nss version dir .applicationData secret cipher 0
  let nextSecret ← updateSecret nss cipher secret
  return { dx := dx, cipher := cipher, nextSecret := nextSecret }

-- The epoch is a usize.
def next (nss : Nss Secret Aead HpKey) (a : CryptoDxAppData Secret Aead HpKey) :
    Except Error (CryptoDxAppData Secret Aead HpKey) :=
  if a.dx.epoch = numberMax then .error .keysExhausted
  else do
    let nextSecret ← updateSecret nss a.cipher a.nextSecret
    let dx ← a.dx.next nss a.nextSecret a.cipher
    return { dx := dx, cipher := a.cipher, nextSecret := nextSecret }

def epoch (a : CryptoDxAppData Secret Aead HpKey) : Nat := a.dx.epoch

theorem new_eq_ok {nss : Nss Secret Aead HpKey} {version : Version} {dir : CryptoDxDirection}
    {secret : Secret} {cipher : Cipher} {a : CryptoDxAppData Secret Aead HpKey}
    (h : new nss version dir secret cipher = .ok a) :
    CryptoDxState.new nss version dir .applicationData secret cipher 0 = .ok a.dx ∧ a.cipher = cipher ∧
      updateSecret nss cipher secret = .ok a.nextSecret := by
  unfold new at h
  cases hdx : CryptoDxState.new nss version dir .applicationData secret cipher 0 with
  | error err => rw [hdx] at h; cases h
  | ok dx =>
      rw [hdx] at h
      cases hsecret : updateSecret nss cipher secret with
      | error err => simp only [hsecret] at h; cases h
      | ok nextSecret =>
          simp only [hsecret] at h
          obtain rfl := Except.ok.inj h
          exact ⟨rfl, rfl, rfl⟩

theorem next_eq_ok {nss : Nss Secret Aead HpKey} {a b : CryptoDxAppData Secret Aead HpKey}
    (h : a.next nss = .ok b) :
    a.dx.next nss a.nextSecret a.cipher = .ok b.dx ∧ b.cipher = a.cipher ∧
      updateSecret nss a.cipher a.nextSecret = .ok b.nextSecret := by
  unfold next at h
  split at h
  · cases h
  · cases hsecret : updateSecret nss a.cipher a.nextSecret with
    | error err => rw [hsecret] at h; cases h
    | ok nextSecret =>
        rw [hsecret] at h
        cases hdx : a.dx.next nss a.nextSecret a.cipher with
        | error err => simp only [hdx] at h; cases h
        | ok dx =>
            simp only [hdx] at h
            obtain rfl := Except.ok.inj h
            exact ⟨rfl, rfl, rfl⟩

end CryptoDxAppData

inductive Role
  | client
  | server
  deriving DecidableEq

-- A cipher of 0, which nss does not have, is none.
structure CryptoStates (Secret Aead HpKey : Type) where
  initials : Version → Option (CryptoState Aead HpKey) := fun _ => none
  handshake : Option (CryptoState Aead HpKey) := none
  zeroRtt : Option (CryptoDxState Aead HpKey) := none
  cipher : Option Cipher := none
  appWrite : Option (CryptoDxAppData Secret Aead HpKey) := none
  appRead : Option (CryptoDxAppData Secret Aead HpKey) := none
  appReadNext : Option (CryptoDxAppData Secret Aead HpKey) := none
  readUpdateTime : Option Nat := none

-- The places that a `&mut CryptoDxState` may point to.
inductive Slot
  | txInitial (version : Version)
  | rxInitial (version : Version)
  | zeroRtt
  | txHandshake
  | rxHandshake
  | appWrite
  | appRead
  | appReadNext
  deriving DecidableEq

namespace CryptoStates

variable (s : CryptoStates Secret Aead HpKey)

-- self.initials[version] = state
def setInitial (version : Version) (state : Option (CryptoState Aead HpKey)) :
    CryptoStates Secret Aead HpKey :=
  { s with initials := Function.update s.initials version state }

def deref : Slot → Option (CryptoDxState Aead HpKey)
  | .txInitial version => (s.initials version).map CryptoState.tx
  | .rxInitial version => (s.initials version).map CryptoState.rx
  | .zeroRtt => s.zeroRtt
  | .txHandshake => s.handshake.map CryptoState.tx
  | .rxHandshake => s.handshake.map CryptoState.rx
  | .appWrite => s.appWrite.map CryptoDxAppData.dx
  | .appRead => s.appRead.map CryptoDxAppData.dx
  | .appReadNext => s.appReadNext.map CryptoDxAppData.dx

def assign (slot : Slot) (dx : CryptoDxState Aead HpKey) : CryptoStates Secret Aead HpKey :=
  match slot with
  | .txInitial version => s.setInitial version ((s.initials version).map ({ · with tx := dx }))
  | .rxInitial version => s.setInitial version ((s.initials version).map ({ · with rx := dx }))
  | .zeroRtt => { s with zeroRtt := s.zeroRtt.map fun _ => dx }
  | .txHandshake => { s with handshake := s.handshake.map ({ · with tx := dx }) }
  | .rxHandshake => { s with handshake := s.handshake.map ({ · with rx := dx }) }
  | .appWrite => { s with appWrite := s.appWrite.map ({ · with dx := dx }) }
  | .appRead => { s with appRead := s.appRead.map ({ · with dx := dx }) }
  | .appReadNext => { s with appReadNext := s.appReadNext.map ({ · with dx := dx }) }

def initialsIsEmpty : Bool := Version.all.all fun version => (s.initials version).isNone

-- 0-RTT keys where there are no 1-RTT keys yet.
def selectTxMut (version : Version) : PacketNumberSpace → Option (Epoch × Slot)
  | .initial => (s.initials version).map fun _ => (.initial, .txInitial version)
  | .handshake => s.handshake.map fun _ => (.handshake, .txHandshake)
  | .applicationData =>
    if s.appWrite.isSome then some (.applicationData, .appWrite)
    else s.zeroRtt.map fun _ => (.zeroRtt, .zeroRtt)

-- A version that has read nothing goes on where another one has read to.
def maybeContinueInitialRx (version : Version) : CryptoStates Secret Aead HpKey :=
  match s.initials version with
  | none => s
  | some next =>
    if next.rx.nextPn ≠ 0 then s
    else
      match Version.all.find? (fun v => (s.initials v).any (0 < ·.rx.nextPn)) with
      | none => s
      | some other =>
        match s.initials other with
        | none => s
        | some prev => s.setInitial version (some { next with rx := (next.rx.continuation prev.rx).2 })

-- Application keys are those of the packet's key phase. `xor` takes neither
-- when both have it.
def rx (version : Version) (epoch : Epoch) (keyPhase : Bool) : Option Slot :=
  match epoch with
  | .initial => (s.initials version).map fun _ => .rxInitial version
  | .zeroRtt => (s.zeroRtt.filter (·.direction = .read)).map fun _ => .zeroRtt
  | .handshake => s.handshake.map fun _ => .rxHandshake
  | .applicationData =>
    match s.appRead.any (·.dx.keyPhase = keyPhase), s.appReadNext.any (·.dx.keyPhase = keyPhase) with
    | true, false => some .appRead
    | false, true => some .appReadNext
    | _, _ => none

def rxHp (version : Version) (epoch : Epoch) : Option Slot × CryptoStates Secret Aead HpKey :=
  match epoch with
  | .applicationData => (s.appRead.map fun _ => .appRead, s)
  | .initial => ((s.maybeContinueInitialRx version).rx version epoch false, s.maybeContinueInitialRx version)
  | _ => (s.rx version epoch false, s)

-- The body of the loop in `init`.
def initVersion (nss : Nss Secret Aead HpKey) (role : Role) (dcid : Bytes) (minPn : Nat) (v : Version) :
    Except Error Unit × CryptoStates Secret Aead HpKey :=
  let (write, read) := match role with
    | .client => ("client in", "server in")
    | .server => ("server in", "client in")
  match CryptoDxState.newInitial nss v .write write dcid minPn,
    CryptoDxState.newInitial nss v .read read dcid 0 with
  | .error err, _ => (.error err, s)
  | .ok _, .error err => (.error err, s)
  | .ok tx, .ok rx =>
    match s.initials v with
    | none => (.ok (), s.setInitial v (some ⟨tx, rx⟩))
    | some prev =>
      match rx.continuation prev.rx with
      | (.error err, _) => (.error err, s)
      | (.ok (), rx) =>
        match tx.continuation prev.tx with
        | (.error err, _) => (.error err, s)
        | (.ok (), tx) => (.ok (), s.setInitial v (some ⟨tx, rx⟩))

def init (nss : Nss Secret Aead HpKey) (role : Role) (dcid : Bytes) (minPn : Nat)
    (s : CryptoStates Secret Aead HpKey) : List Version → Except Error Unit × CryptoStates Secret Aead HpKey
  | [] => (.ok (), s)
  | v :: versions =>
    match s.initVersion nss role dcid minPn v with
    | (.error err, s) => (.error err, s)
    | (.ok (), s) => init nss role dcid minPn s versions

def initServer (nss : Nss Secret Aead HpKey) (version : Version) (dcid : Bytes) (minPn : Nat) :
    Except Error Unit × CryptoStates Secret Aead HpKey :=
  if (s.initials version).isNone then init nss .server dcid minPn s [version] else (.ok (), s)

-- The keys of the original version are put back only when all went well.
def confirmVersion (orig confirmed : Version) : Except Error Unit × CryptoStates Secret Aead HpKey :=
  if orig = confirmed then (.ok (), s)
  else
    match s.initials orig with
    | none => (.ok (), s)
    | some prev =>
      let s := s.setInitial orig none
      match s.initials confirmed with
      | none => (.error .versionNegotiation, s)
      | some next =>
        match next.rx.continuation prev.rx with
        | (.error err, rx) => (.error err, s.setInitial confirmed (some { next with rx := rx }))
        | (.ok (), rx) =>
          match next.tx.continuation prev.tx with
          | (.error err, tx) => (.error err, s.setInitial confirmed (some ⟨tx, rx⟩))
          | (.ok (), tx) => (.ok (), (s.setInitial confirmed (some ⟨tx, rx⟩)).setInitial orig (some prev))

def set0rttKeys (nss : Nss Secret Aead HpKey) (version : Version) (dir : CryptoDxDirection) (secret : Secret)
    (cipher : Cipher) : Except Error Unit × CryptoStates Secret Aead HpKey :=
  match CryptoDxState.new nss version dir .zeroRtt secret cipher 0 with
  | .error err => (.error err, s)
  | .ok dx => (.ok (), { s with zeroRtt := some dx })

-- None where the code panics.
def discard : PacketNumberSpace → Option (Bool × CryptoStates Secret Aead HpKey)
  | .initial => some (!s.initialsIsEmpty, { s with initials := fun _ => none })
  | .handshake => some (s.handshake.isSome, { s with handshake := none })
  | .applicationData => none

def discard0rttKeys : Option (CryptoStates Secret Aead HpKey) :=
  if s.appRead.isNone then some { s with zeroRtt := none } else none

def setHandshakeKeys (nss : Nss Secret Aead HpKey) (version : Version) (writeSecret readSecret : Secret)
    (cipher : Cipher) : Except Error Unit × CryptoStates Secret Aead HpKey :=
  let s := { s with cipher := some cipher }
  match CryptoDxState.new nss version .write .handshake writeSecret cipher 0,
    CryptoDxState.new nss version .read .handshake readSecret cipher 0 with
  | .error err, _ => (.error err, s)
  | .ok _, .error err => (.error err, s)
  | .ok tx, .ok rx => (.ok (), { s with handshake := some ⟨tx, rx⟩ })

def newAppData (nss : Nss Secret Aead HpKey) (version : Version) (dir : CryptoDxDirection) (secret : Secret) :
    Except Error (CryptoDxAppData Secret Aead HpKey) :=
  match s.cipher with
  | none => .error .crypto
  | some cipher => CryptoDxAppData.new nss version dir secret cipher

-- What new keys go on from, where there are 0-RTT keys of their direction.
def afterZeroRtt (dir : CryptoDxDirection) (app : CryptoDxAppData Secret Aead HpKey) :
    Except Error (CryptoDxAppData Secret Aead HpKey) :=
  match s.zeroRtt.filter (·.direction = dir) with
  | none => .ok app
  | some z =>
    match app.dx.continuation z with
    | (.error err, _) => .error err
    | (.ok (), dx) => .ok { app with dx := dx }

def setApplicationWriteKey (nss : Nss Secret Aead HpKey) (version : Version) (secret : Secret) :
    Except Error Unit × CryptoStates Secret Aead HpKey :=
  match s.newAppData nss version .write secret >>= s.afterZeroRtt .write with
  | .error err => (.error err, s)
  | .ok app => (.ok (), { s with zeroRtt := none, appWrite := some app })

-- Where there are 0-RTT keys, of either direction, the timer is set before the
-- keys after the new ones are derived.
def setApplicationReadKey (nss : Nss Secret Aead HpKey) (version : Version) (secret : Secret)
    (expire0rtt : Nat) : Except Error Unit × CryptoStates Secret Aead HpKey :=
  match s.newAppData nss version .read secret >>= s.afterZeroRtt .read with
  | .error err => (.error err, s)
  | .ok app =>
    let s := if s.zeroRtt.isSome then { s with readUpdateTime := some expire0rtt } else s
    match app.next nss with
    | .error err => (.error err, s)
    | .ok next => (.ok (), { s with appReadNext := some next, appRead := some app })

-- Not while the write keys are ahead of the read keys.
def maybeUpdateWrite (nss : Nss Secret Aead HpKey) : Except Error Bool × CryptoStates Secret Aead HpKey :=
  match s.appWrite, s.appRead with
  | none, _ => (.error .internal, s)
  | some _, none => (.error .internal, s)
  | some write, some read =>
    if write.epoch = read.epoch then
      match write.next nss with
      | .error err => (.error err, s)
      | .ok next => (.ok true, { s with appWrite := some next })
    else (.ok false, s)

def initiateKeyUpdate (nss : Nss Secret Aead HpKey) (largestAcknowledged : Option Nat) :
    Except Error Unit × CryptoStates Secret Aead HpKey :=
  match s.appWrite with
  | none => (.error .internal, s)
  | some write =>
    if write.dx.canUpdate largestAcknowledged ∧ s.readUpdateTime.isNone then
      match s.maybeUpdateWrite nss with
      | (.error err, s) => (.error err, s)
      | (.ok true, s) => (.ok (), s)
      | (.ok false, s) => (.error .keyUpdateBlocked, s)
    else (.error .keyUpdateBlocked, s)

def autoUpdate (nss : Nss Secret Aead HpKey) : Except Error Unit × CryptoStates Secret Aead HpKey :=
  if s.appWrite.any (·.dx.shouldUpdate) then
    match s.maybeUpdateWrite nss with
    | (.error err, s) => (.error err, s)
    | (.ok true, s) => (.ok (), s)
    | (.ok false, s) => (.error .keysExhausted, s)
  else (.ok (), s)

def has0rttRead : Bool := s.zeroRtt.any (·.direction = .read)

def keyUpdateReceived (nss : Nss Secret Aead HpKey) (expiration : Nat) :
    Except Error Unit × CryptoStates Secret Aead HpKey :=
  match s.maybeUpdateWrite nss with
  | (.error err, s) => (.error err, s)
  | (.ok _, s) =>
    (.ok (), { s with
      zeroRtt := if s.has0rttRead then none else s.zeroRtt
      readUpdateTime := some expiration })

-- The keys are swapped before the keys after them are derived.
def checkKeyUpdate (nss : Nss Secret Aead HpKey) (now : Nat) :
    Except Error Unit × CryptoStates Secret Aead HpKey :=
  match s.readUpdateTime with
  | none => (.ok (), s)
  | some expiry =>
    if now < expiry then (.ok (), s)
    else if s.has0rttRead then (.ok (), { s with zeroRtt := none, readUpdateTime := none })
    else
      let s := { s with appRead := s.appReadNext, appReadNext := s.appRead }
      match s.appRead with
      | none => (.error .internal, s)
      | some read =>
        match read.next nss with
        | .error err => (.error err, s)
        | .ok next => (.ok (), { s with appReadNext := some next, readUpdateTime := none })

def checkPnOverlap : Except Error Unit × CryptoStates Secret Aead HpKey :=
  if s.readUpdateTime.isSome then
    match s.appReadNext, s.appRead with
    | none, _ => (.error .internal, s)
    | some _, none => (.error .internal, s)
    | some next, some read =>
      let (result, dx) := next.dx.continuation read.dx
      (result, { s with appReadNext := some { next with dx := dx } })
  else (.ok (), s)

variable {nss : Nss Secret Aead HpKey} {s : CryptoStates Secret Aead HpKey}

-- The keys of the application are new, and go on from the packet numbers of
-- 0-RTT keys of their direction.
theorem installed_app {version : Version} {dir : CryptoDxDirection} {secret : Secret}
    {app app' : CryptoDxAppData Secret Aead HpKey} (happ : s.newAppData nss version dir secret = .ok app)
    (happ' : s.afterZeroRtt dir app = .ok app') :
    CryptoDxState.Fresh app'.dx ((s.zeroRtt.filter (·.direction = dir)).elim 0 CryptoDxState.nextPn) ∧
      app'.cipher = app.cipher ∧ app'.nextSecret = app.nextSecret ∧ app'.dx.aead = app.dx.aead ∧
      app'.dx.version = app.dx.version ∧ app'.dx.direction = app.dx.direction ∧
      app'.dx.epoch = app.dx.epoch ∧ app'.dx.invocations = app.dx.invocations := by
  unfold newAppData at happ
  split at happ
  · cases happ
  · obtain ⟨hdx, _⟩ := CryptoDxAppData.new_eq_ok happ
    obtain ⟨hfresh, _⟩ := CryptoDxState.new_eq_ok hdx
    unfold afterZeroRtt at happ'
    cases hz : s.zeroRtt.filter (·.direction = dir) with
    | none =>
        rw [hz] at happ'
        obtain rfl := Except.ok.inj happ'
        exact ⟨hfresh, rfl, rfl, rfl, rfl, rfl, rfl, rfl⟩
    | some z =>
        obtain ⟨hok, hfresh'⟩ := CryptoDxState.continuation_fresh app.dx hfresh z
        have hsame := app.dx.continuation_sameKeys z
        rw [hz] at happ'
        cases hc : app.dx.continuation z with
        | mk result dx =>
            rw [hc] at hok hfresh' hsame
            simp only at hok hsame
            subst hok
            simp only [hc] at happ'
            obtain rfl := Except.ok.inj happ'
            rw [hsame] at hfresh' ⊢
            exact ⟨hfresh', rfl, rfl, rfl, rfl, rfl, rfl, rfl⟩

end CryptoStates

end NeverFox.Quic
