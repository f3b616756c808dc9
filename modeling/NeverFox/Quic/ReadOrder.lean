import NeverFox.Quic.KeyUpdate

namespace NeverFox.Quic

variable {Secret Aead HpKey : Type} {nss : Nss Secret Aead HpKey}

-- A packet of the application data space: the epoch of the keys that opened it
-- and its number.
structure Taken where
  epoch : Nat
  pn : Nat
  deriving DecidableEq

-- The keys, with the packet that was opened last, until the calls that follow
-- a decryption are made, and the packets that passed them all.
structure Reader (Secret Aead HpKey : Type) where
  keys : CryptoStates Secret Aead HpKey := {}
  opened : Option Taken := none
  due : Bool := false
  taken : List Taken := []

namespace Reader

def note (e : Reader Secret Aead HpKey) (op : Op Secret) (result : Except Error Unit)
    (keys : CryptoStates Secret Aead HpKey) : Reader Secret Aead HpKey :=
  match op, result with
  | .decrypt version .applicationData keyPhase pn _ _, .ok _ =>
    match (e.keys.rx version .applicationData keyPhase).bind keys.deref with
    | some dx => { e with keys := keys, opened := some ⟨dx.epoch, pn⟩, due := dx.needsUpdate }
    | none => { e with keys := keys }
  | .keyUpdateReceived _, .ok _ => { e with keys := keys, due := false }
  | .checkPnOverlap, .ok _ => { e with keys := keys, opened := none, taken := e.taken ++ e.opened.toList }
  | _, _ => { e with keys := keys }

def step (nss : Nss Secret Aead HpKey) (e : Reader Secret Aead HpKey) (op : Op Secret) :
    Option (Reader Secret Aead HpKey) :=
  (e.keys.call nss op).map fun r => e.note op r.1 r.2

-- Read keys are set once, and 0-RTT read keys before them. An error of the calls
-- for a key update ends the connection.
def Regular (nss : Nss Secret Aead HpKey) (s : CryptoStates Secret Aead HpKey) : Op Secret → Prop
  | .set0rttKeys _ dir _ _ => dir = .read → s.appRead = none
  | .setApplicationReadKey _ _ _ => s.appRead = none
  | .keyUpdateReceived expiration => (s.keyUpdateReceived nss expiration).1 = .ok ()
  | .checkKeyUpdate now => (s.checkKeyUpdate nss now).1 = .ok ()
  | .checkPnOverlap => s.checkPnOverlap.1 = .ok ()
  | _ => True

-- After a decryption comes the key update when it made one due, and then the
-- check of the packet numbers.
def Timely (e : Reader Secret Aead HpKey) : Op Secret → Prop
  | .keyUpdateReceived _ => e.due = true
  | .checkPnOverlap => e.due = false
  | _ => e.opened = none

instance (nss : Nss Secret Aead HpKey) (s : CryptoStates Secret Aead HpKey) (op : Op Secret) :
    Decidable (Regular nss s op) :=
  match op with
  | .set0rttKeys _ dir _ _ => inferInstanceAs (Decidable (dir = .read → s.appRead = none))
  | .setApplicationReadKey .. => inferInstanceAs (Decidable (s.appRead = none))
  | .keyUpdateReceived expiration =>
    inferInstanceAs (Decidable ((s.keyUpdateReceived nss expiration).1 = .ok ()))
  | .checkKeyUpdate now => inferInstanceAs (Decidable ((s.checkKeyUpdate nss now).1 = .ok ()))
  | .checkPnOverlap => inferInstanceAs (Decidable (s.checkPnOverlap.1 = .ok ()))
  | .init .. | .initServer .. | .confirmVersion .. | .discard .. | .discard0rttKeys | .setHandshakeKeys ..
  | .setApplicationWriteKey .. | .initiateKeyUpdate .. | .autoUpdate | .rxHp .. | .encrypt ..
  | .decrypt .. => isTrue trivial

instance (e : Reader Secret Aead HpKey) (op : Op Secret) : Decidable (Timely e op) :=
  match op with
  | .keyUpdateReceived _ => inferInstanceAs (Decidable (e.due = true))
  | .checkPnOverlap => inferInstanceAs (Decidable (e.due = false))
  | .init .. | .initServer .. | .confirmVersion .. | .set0rttKeys .. | .discard .. | .discard0rttKeys
  | .setHandshakeKeys .. | .setApplicationWriteKey .. | .setApplicationReadKey .. | .initiateKeyUpdate ..
  | .autoUpdate | .checkKeyUpdate .. | .rxHp .. | .encrypt .. | .decrypt .. =>
    inferInstanceAs (Decidable (e.opened = none))

end Reader

namespace CryptoDxState

variable {s t : CryptoDxState Aead HpKey} {pn : Nat} {hdr : Span} {data : Bytes}

-- The range of packet numbers moves with a packet that opens, and only then.
theorem decrypt_used (nss : Nss Secret Aead HpKey) (s : CryptoDxState Aead HpKey) (pn : Nat) (hdr : Span)
    (data : Bytes) :
    (∃ err, (s.decrypt nss pn hdr data).1 = .error err ∧ (s.decrypt nss pn hdr data).2.usedPn = s.usedPn) ∨
    (∃ plain, (s.decrypt nss pn hdr data).1 = .ok plain ∧ s.minPn ≤ pn ∧
      (s.decrypt nss pn hdr data).2.usedPn =
        ⟨if s.usedPn.start = s.usedPn.stop then pn else s.usedPn.start, max (pn + 1) s.usedPn.stop⟩) := by
  unfold decrypt
  split
  · exact .inl ⟨_, rfl, rfl⟩
  · next t hinvoked =>
    obtain ⟨_, rfl⟩ := invoked_eq_ok hinvoked
    dsimp only
    split
    · exact .inl ⟨_, rfl, rfl⟩
    · next plain _ =>
      split
      · exact .inl ⟨_, rfl, rfl⟩
      · next t hused =>
        obtain ⟨hmin, rfl⟩ := used_eq_ok hused
        exact .inr ⟨plain, rfl, hmin, rfl⟩

-- A continuation that succeeds starts the range behind that of the keys before.
theorem continuation_ok {prev : CryptoDxState Aead HpKey} (hspan : s.usedPn.start ≤ s.usedPn.stop)
    (h : (s.continuation prev).1 = .ok ()) :
    (s.continuation prev).2.minPn = prev.nextPn ∧ (s.continuation prev).2.usedPn.start = prev.nextPn ∧
      (s.usedPn.start = s.usedPn.stop ∧ (s.continuation prev).2.usedPn.stop = prev.nextPn ∨
        s.usedPn.start < s.usedPn.stop ∧ prev.nextPn ≤ s.usedPn.start ∧
          (s.continuation prev).2.usedPn.stop = s.usedPn.stop) := by
  unfold continuation at h ⊢
  dsimp only at h ⊢
  split
  · next hempty =>
    have hle : s.usedPn.stop ≤ s.usedPn.start := of_decide_eq_true hempty
    exact ⟨rfl, rfl, .inl ⟨by omega, rfl⟩⟩
  · next hempty =>
    have hlt : ¬s.usedPn.stop ≤ s.usedPn.start := fun hle => hempty (decide_eq_true hle)
    split
    · next hover =>
      rw [if_neg hempty, if_pos hover] at h
      cases h
    · next hover =>
      refine ⟨rfl, rfl, .inr ⟨by omega, ?_, rfl⟩⟩
      show prev.usedPn.stop ≤ s.usedPn.start
      omega

end CryptoDxState

-- The current read keys and those after them, and the packets taken: each is
-- below what newer keys accept.
structure Apart (r n : CryptoDxState Aead HpKey) (taken : List Taken) : Prop where
  epoch : n.epoch = r.epoch + 1
  app : Epoch.applicationData.toNat ≤ r.epoch
  least : r.minPn ≤ r.nextPn
  span : n.usedPn.start ≤ n.usedPn.stop
  leastNext : n.minPn ≤ n.nextPn
  fresh : n.usedPn.start = n.usedPn.stop → n.minPn = n.usedPn.stop
  older : ∀ t ∈ taken, t.epoch < r.epoch → t.pn < r.minPn
  current : ∀ t ∈ taken, t.epoch = r.epoch → t.pn < r.nextPn
  newer : ∀ t ∈ taken, r.epoch < t.epoch → t.epoch = n.epoch ∧ n.usedPn.start ≤ t.pn ∧ t.pn < n.nextPn
  sorted : ∀ p ∈ taken, ∀ q ∈ taken, p.epoch < q.epoch → p.pn < q.pn

-- Which of the two has opened a packet.
def OpenedBy (r n : CryptoDxState Aead HpKey) (t : Taken) : Prop :=
  t.epoch = r.epoch ∧ r.minPn ≤ t.pn ∧ t.pn < r.nextPn ∨
    t.epoch = n.epoch ∧ n.usedPn.start ≤ t.pn ∧ t.pn < n.nextPn

namespace Apart

variable {r n : CryptoDxState Aead HpKey} {taken : List Taken} {pn : Nat} {hdr : Span} {data : Bytes}

theorem below (h : Apart r n taken) {t : Taken} (ht : t ∈ taken) (hle : t.epoch ≤ r.epoch) :
    t.pn < r.nextPn := by
  have hleast := h.least
  cases Nat.lt_or_eq_of_le hle with
  | inl hlt =>
      have hpn := h.older t ht hlt
      omega
  | inr heq => exact h.current t ht heq

theorem ofSame (h : Apart r n taken) {r' n' : CryptoDxState Aead HpKey} (hr : r.SameKeys r')
    (hrused : r'.usedPn = r.usedPn) (hn : n.SameKeys n') (hnused : n'.usedPn = n.usedPn) :
    Apart r' n' taken := by
  have hrnext : r'.nextPn = r.nextPn := congrArg Span.stop hrused
  have hnnext : n'.nextPn = n.nextPn := congrArg Span.stop hnused
  refine ⟨?_, ?_, ?_, ?_, ?_, ?_, ?_, ?_, ?_, h.sorted⟩
  · rw [hr.epoch, hn.epoch]
    exact h.epoch
  · rw [hr.epoch]
    exact h.app
  · rw [hr.minPn, hrnext]
    exact h.least
  · rw [hnused]
    exact h.span
  · rw [hn.minPn, hnnext]
    exact h.leastNext
  · rw [hn.minPn, hnused]
    exact h.fresh
  · rw [hr.epoch, hr.minPn]
    exact h.older
  · rw [hr.epoch, hrnext]
    exact h.current
  · rw [hr.epoch, hn.epoch, hnused, hnnext]
    exact h.newer

-- A packet that the current keys open.
theorem readCurrent (h : Apart r n taken) {r' : CryptoDxState Aead HpKey} (hsame : r.SameKeys r')
    (hmin : r.minPn ≤ pn) (hused : r'.nextPn = max (pn + 1) r.nextPn) :
    Apart r' n taken ∧ OpenedBy r' n ⟨r'.epoch, pn⟩ := by
  have hepoch := hsame.epoch
  have hminPn := hsame.minPn
  have hleast := h.least
  refine ⟨⟨?_, ?_, ?_, h.span, h.leastNext, h.fresh, ?_, ?_, ?_, h.sorted⟩, .inl ⟨rfl, ?_, ?_⟩⟩
  · rw [hepoch]
    exact h.epoch
  · rw [hepoch]
    exact h.app
  · omega
  · rw [hepoch, hminPn]
    exact h.older
  · intro t ht heq
    have hlt := h.current t ht (heq.trans hepoch)
    omega
  · rw [hepoch]
    exact h.newer
  · show r'.minPn ≤ pn
    omega
  · show pn < r'.nextPn
    omega

-- A packet that the next keys open. The first one makes a key update due.
theorem readNext (h : Apart r n taken) {n' : CryptoDxState Aead HpKey} (hsame : n.SameKeys n')
    (hmin : n.minPn ≤ pn) (hstart : n.usedPn.start < n.usedPn.stop → n.usedPn.start ≤ n.minPn)
    (hused : n'.usedPn =
      ⟨if n.usedPn.start = n.usedPn.stop then pn else n.usedPn.start, max (pn + 1) n.usedPn.stop⟩) :
    Apart r n' taken ∧ OpenedBy r n' ⟨n'.epoch, pn⟩ ∧
      (n.usedPn.start = n.usedPn.stop → n'.needsUpdate = true) := by
  have hepoch := hsame.epoch
  have hminPn := hsame.minPn
  have hspan := h.span
  have hnext : n'.nextPn = max (pn + 1) n.usedPn.stop := congrArg Span.stop hused
  have hstop : n'.usedPn.stop = max (pn + 1) n.usedPn.stop := congrArg Span.stop hused
  have hfirst : n.usedPn.start = n.usedPn.stop ∧ n'.usedPn.start = pn ∨
      n.usedPn.start < n.usedPn.stop ∧ n'.usedPn.start = n.usedPn.start := by
    rw [hused]
    by_cases heq : n.usedPn.start = n.usedPn.stop
    · exact .inl ⟨heq, if_pos heq⟩
    · exact .inr ⟨by omega, if_neg heq⟩
  have hlow : n'.usedPn.start ≤ pn := by
    obtain ⟨_, heq⟩ | ⟨hlt, heq⟩ := hfirst
    · omega
    · have hle := hstart hlt
      omega
  refine ⟨⟨?_, h.app, h.least, ?_, ?_, ?_, h.older, h.current, ?_, h.sorted⟩,
    .inr ⟨rfl, hlow, ?_⟩, fun hempty => ?_⟩
  · rw [hepoch]
    exact h.epoch
  · omega
  · have hleast := h.leastNext
    omega
  · intro heq
    omega
  · intro t ht hlt
    obtain ⟨heq, hge, hlt'⟩ := h.newer t ht hlt
    have hstop' : t.pn < n.usedPn.stop := hlt'
    refine ⟨heq.trans hepoch.symm, ?_, ?_⟩
    · obtain ⟨hempty, _⟩ | ⟨_, heq'⟩ := hfirst
      · omega
      · omega
    · omega
  · show pn < n'.nextPn
    omega
  · have hmin' := h.fresh hempty
    have heq := h.epoch
    have happ := h.app
    unfold CryptoDxState.needsUpdate
    rw [decide_eq_true_eq]
    obtain ⟨_, heq'⟩ | ⟨hlt, _⟩ := hfirst
    · exact ⟨by omega, by omega⟩
    · omega

-- The next keys go on from the current ones.
theorem continued (h : Apart r n taken) (hok : (n.continuation r).1 = .ok ()) :
    Apart r (n.continuation r).2 taken ∧
      ∀ t, n.usedPn.start ≤ t ∧ t < n.nextPn →
        (n.continuation r).2.usedPn.start ≤ t ∧ t < (n.continuation r).2.nextPn := by
  obtain ⟨hminPn, hstart, hstop⟩ := CryptoDxState.continuation_ok h.span hok
  have hsame := n.continuation_sameKeys r
  have hepoch : (n.continuation r).2.epoch = n.epoch := by rw [hsame]
  have hwithin : ∀ t, n.usedPn.start ≤ t ∧ t < n.nextPn →
      (n.continuation r).2.usedPn.start ≤ t ∧ t < (n.continuation r).2.nextPn := by
    rintro t ⟨hge, hlt⟩
    unfold CryptoDxState.nextPn at hlt hstop hstart ⊢
    omega
  refine ⟨⟨?_, h.app, h.least, ?_, ?_, ?_, h.older, h.current, ?_, h.sorted⟩, hwithin⟩
  · rw [hepoch]
    exact h.epoch
  · unfold CryptoDxState.nextPn at hstop hstart
    omega
  · unfold CryptoDxState.nextPn at hminPn hstop ⊢
    omega
  · intro heq
    omega
  · intro t ht hlt
    obtain ⟨heq, hin⟩ := h.newer t ht hlt
    exact ⟨heq.trans hepoch.symm, hwithin t.pn hin⟩

-- A packet taken, when the next keys have opened none but beyond the current ones.
theorem take (h : Apart r n taken) {p : Taken} (hp : OpenedBy r n p)
    (hbeyond : n.usedPn.start < n.usedPn.stop → r.nextPn ≤ n.usedPn.start) : Apart r n (taken ++ [p]) := by
  have hepoch := h.epoch
  have hnext : ∀ t ∈ taken, r.epoch < t.epoch → t.epoch = n.epoch ∧ r.nextPn ≤ t.pn := by
    intro t ht hlt
    obtain ⟨heq, hge, hlt'⟩ := h.newer t ht hlt
    have hle := hbeyond (Nat.lt_of_le_of_lt hge hlt')
    exact ⟨heq, by omega⟩
  have hp' : p.epoch = r.epoch ∧ r.minPn ≤ p.pn ∧ p.pn < r.nextPn ∨
      p.epoch = n.epoch ∧ n.usedPn.start ≤ p.pn ∧ p.pn < n.nextPn ∧ r.nextPn ≤ p.pn := by
    obtain hr | ⟨heq, hge, hlt⟩ := hp
    · exact .inl hr
    · have hle := hbeyond (Nat.lt_of_le_of_lt hge hlt)
      exact .inr ⟨heq, hge, hlt, by omega⟩
  have hmem : ∀ t, t ∈ taken ++ [p] → t ∈ taken ∨ t = p := fun t ht => by
    simpa [List.mem_append] using ht
  refine ⟨hepoch, h.app, h.least, h.span, h.leastNext, h.fresh, ?_, ?_, ?_, ?_⟩
  · intro t ht hlt
    obtain ht | rfl := hmem t ht
    · exact h.older t ht hlt
    · omega
  · intro t ht heq
    obtain ht | rfl := hmem t ht
    · exact h.current t ht heq
    · omega
  · intro t ht hlt
    obtain ht | rfl := hmem t ht
    · exact h.newer t ht hlt
    · omega
  · intro s hs t ht hlt
    obtain hs' | rfl := hmem s hs
    · obtain ht' | rfl := hmem t ht
      · exact h.sorted s hs' t ht' hlt
      · by_cases hle : s.epoch ≤ r.epoch
        · have hbelow := h.below hs' hle
          by_cases heq : s.epoch = r.epoch
          · omega
          · have holder := h.older s hs' (by omega)
            omega
        · have hsnext := hnext s hs' (by omega)
          omega
    · obtain ht' | rfl := hmem t ht
      · by_cases hle : t.epoch ≤ r.epoch
        · omega
        · have htnext := hnext t ht' (by omega)
          omega
      · omega

theorem rotate (h : Apart r n taken) (hmin : n.minPn = r.nextPn) {n' : CryptoDxState Aead HpKey}
    (hfresh : n'.Fresh n.nextPn) (hepoch : n'.epoch = n.epoch + 1) : Apart n n' taken := by
  have hle : ∀ t ∈ taken, t.epoch ≤ n.epoch := by
    intro t ht
    have heq := h.epoch
    by_cases hlt : r.epoch < t.epoch
    · have hnewer := h.newer t ht hlt
      omega
    · omega
  have hused := hfresh.usedPn
  have happ := h.app
  have hn := h.epoch
  refine ⟨hepoch, by omega, h.leastNext, ?_, ?_, ?_, ?_, ?_, ?_, h.sorted⟩
  · rw [hused]
  · rw [CryptoDxState.nextPn, hused, hfresh.minPn]
  · intro _
    rw [hused, hfresh.minPn]
  · intro t ht hlt
    have hbelow := h.below ht (by omega)
    omega
  · intro t ht heq
    exact (h.newer t ht (by omega)).2.2
  · intro t ht hlt
    exact absurd (hle t ht) (by omega)

theorem install {pn : Nat} (hr : r.Fresh pn) (hn : n.Fresh r.nextPn) (hepoch : n.epoch = r.epoch + 1)
    (happ : Epoch.applicationData.toNat ≤ r.epoch) : Apart r n [] := by
  refine ⟨hepoch, happ, ?_, ?_, ?_, ?_, fun _ h => (nomatch h), fun _ h => (nomatch h),
    fun _ h => (nomatch h), fun _ h => (nomatch h)⟩
  · rw [CryptoDxState.nextPn, hr.usedPn, hr.minPn]
  · rw [hn.usedPn]
  · rw [CryptoDxState.nextPn, hn.usedPn, hn.minPn]
  · intro _
    rw [hn.usedPn, hn.minPn]

end Apart

theorem next_fresh {a b : CryptoDxAppData Secret Aead HpKey} (h : a.next nss = .ok b) :
    b.dx.Fresh a.dx.nextPn ∧ b.dx.epoch = a.dx.epoch + 1 := by
  obtain ⟨hfresh, _, _, hepoch, _⟩ := CryptoDxState.next_eq_ok _ (CryptoDxAppData.next_eq_ok h).1
  exact ⟨hfresh, hepoch⟩

-- The timer of a key update runs, and not that of 0-RTT keys.
def Timed (k : AppKeys Secret Aead HpKey) : Prop :=
  k.readUpdateTime ≠ none ∧ k.zeroRtt.any (·.direction = .read) = false

-- Once the calls that follow a decryption are made, the next keys are unused or
-- a timer runs until they are current, and meanwhile they accept nothing that
-- the current ones could have accepted.
structure Kept (k : AppKeys Secret Aead HpKey) (opened : Option Taken) (due : Bool) (taken : List Taken) :
    Prop where
  unread : k.appRead = none → k.appReadNext = none ∧ opened = none ∧ taken = []
  quiet : opened = none → due = false
  pair : ∀ r, k.appRead = some r → ∃ n, k.appReadNext = some n ∧ Apart r.dx n.dx taken ∧
    (∀ p ∈ opened, OpenedBy r.dx n.dx p) ∧
    (n.dx.usedPn.start < n.dx.usedPn.stop → due = true ∨ Timed k) ∧
    (opened = none → k.readUpdateTime ≠ none → n.dx.minPn = r.dx.nextPn ∧
      (n.dx.usedPn.start < n.dx.usedPn.stop → n.dx.usedPn.start = r.dx.nextPn))

theorem kept_initial : Kept (CryptoStates.app ({} : CryptoStates Secret Aead HpKey)) none false [] where
  unread _ := ⟨rfl, rfl, rfl⟩
  quiet _ := rfl
  pair _ h := nomatch h

namespace Kept

variable {k k' : AppKeys Secret Aead HpKey} {opened : Option Taken} {due : Bool} {taken : List Taken}
  {s s' : CryptoStates Secret Aead HpKey} {op : Op Secret} {result : Except Error Unit}

theorem frame (h : Kept k none false taken) (hread : k'.appRead = k.appRead)
    (hnext : k'.appReadNext = k.appReadNext) (htimer : k'.readUpdateTime ≠ none → k.readUpdateTime ≠ none)
    (htimed : Timed k → Timed k') : Kept k' none false taken where
  unread hnone := by
    rw [hnext]
    exact h.unread (hread.symm.trans hnone)
  quiet _ := rfl
  pair r hr := by
    obtain ⟨n, hn, hapart, hopened, hidle, hruns⟩ := h.pair r (hread.symm.trans hr)
    refine ⟨n, hnext.trans hn, hapart, hopened, fun hlt => ?_, fun hnone ht => hruns hnone (htimer ht)⟩
    cases hidle hlt with
    | inl hdue => exact .inl hdue
    | inr ht => exact .inr (htimed ht)

-- Without read keys nothing is at stake.
theorem ofUnread (h : Kept k none false taken) (hnone : k.appRead = none) (hread : k'.appRead = none)
    (hnext : k'.appReadNext = k.appReadNext) : Kept k' none false taken where
  unread _ := by
    rw [hnext]
    exact h.unread hnone
  quiet _ := rfl
  pair r hr := nomatch hread.symm.trans hr

-- The keys that a call leaves, but for one that opens a packet or is made for one.
theorem appStep (h : Kept s.app none false taken) (hstep : AppStep nss s op result k)
    (hregular : Reader.Regular nss s op)
    (hok : (op = .checkPnOverlap ∨ ∃ now, op = .checkKeyUpdate now) → result = .ok ())
    (hop : ∀ version keyPhase pn hdr data, op ≠ .decrypt version .applicationData keyPhase pn hdr data)
    (hupdate : ∀ expiration, op ≠ .keyUpdateReceived expiration) : Kept k none false taken := by
  cases hstep with
  | other _ _ => exact h
  | encryptWrite _ => exact h.frame rfl rfl id id
  | encryptZeroRtt _ hz =>
      refine h.frame rfl rfl id fun ht => ⟨ht.1, ?_⟩
      have hread := ht.2
      rw [show s.app.zeroRtt = some _ from hz] at hread
      simpa [(CryptoDxState.encrypt_sameKeys _ _ _ _ _).direction] using hread
  | decryptRead _ _ => exact absurd rfl (hop _ _ _ _ _)
  | decryptNext _ _ => exact absurd rfl (hop _ _ _ _ _)
  | decryptZeroRtt hz hread =>
      refine h.frame rfl rfl id fun ht => ?_
      have hany := ht.2
      rw [show s.app.zeroRtt = some _ from hz] at hany
      simp [hread] at hany
  | @set0rtt _ dir _ _ z hz =>
      obtain ⟨_, _, hdir, _⟩ := CryptoDxState.new_eq_ok hz
      cases dir with
      | read => exact h.ofUnread (hregular rfl) (hregular rfl) rfl
      | write => exact h.frame rfl rfl id fun ht => ⟨ht.1, by simp [hdir]⟩
  | discard0rtt hr => exact h.ofUnread hr hr rfl
  | setCipher => exact h.frame rfl rfl id id
  | installWrite _ _ => exact h.frame rfl rfl id fun ht => ⟨ht.1, rfl⟩
  | installRead happ happ' hnext =>
      obtain ⟨hfresh, _⟩ := CryptoStates.installed_app happ happ'
      obtain ⟨hnfresh, hnepoch⟩ := next_fresh hnext
      obtain ⟨_, _, rfl⟩ := h.unread hregular
      refine ⟨fun hnone => (nomatch hnone), fun _ => rfl, fun r hr => ?_⟩
      obtain rfl := Option.some.inj hr
      have hstop := hnfresh.usedPn
      refine ⟨_, rfl, Apart.install hfresh hnfresh hnepoch (Nat.le_of_eq (installed_epoch happ happ').symm),
        fun _ hp => (nomatch hp), fun hlt => ?_, fun _ _ => ⟨hnfresh.minPn, fun hlt => ?_⟩⟩
      · rw [hstop] at hlt
        exact absurd hlt (Nat.lt_irrefl _)
      · rw [hstop]
  | installReadFailed => exact h.ofUnread hregular hregular rfl
  | updateWrite _ _ _ _ _ _ => exact h.frame rfl rfl id id
  | receivedFirst _ _ _ _ => exact absurd rfl (hupdate _)
  | receivedSecond _ _ _ => exact absurd rfl (hupdate _)
  | expire0rtt ht hz =>
      refine ⟨h.unread, fun _ => rfl, fun r hr => ?_⟩
      obtain ⟨n, hn, hapart, hopened, hidle, _⟩ := h.pair r hr
      refine ⟨n, hn, hapart, hopened, fun hlt => ?_, fun _ hnone => absurd rfl hnone⟩
      cases hidle hlt with
      | inl hdue => cases hdue
      | inr htimed => exact nomatch hz.symm.trans htimed.2
  | rotate ht hz hn hnext =>
      obtain ⟨hnfresh, hnepoch⟩ := next_fresh hnext
      cases hr : s.appRead with
      | none => exact nomatch (h.unread hr).1.symm.trans hn
      | some r =>
          obtain ⟨m, hm, hapart, _, _, hruns⟩ := h.pair r hr
          obtain rfl := Option.some.inj (hn.symm.trans hm)
          obtain ⟨hmin, _⟩ := hruns rfl (by rw [show s.app.readUpdateTime = some _ from ht]; simp)
          refine ⟨fun hnone => (nomatch hnone), fun _ => rfl, fun r' hr' => ?_⟩
          obtain rfl := Option.some.inj hr'
          refine ⟨_, rfl, hapart.rotate hmin hnfresh hnepoch, fun _ hp => (nomatch hp), fun hlt => ?_,
            fun _ hnone => absurd rfl hnone⟩
          rw [hnfresh.usedPn] at hlt
          exact absurd hlt (Nat.lt_irrefl _)
  | rotateFailed => exact nomatch hok (.inr ⟨_, rfl⟩)
  | overlap ht hn hr =>
      obtain ⟨m, hm, hapart, _, hidle, _⟩ := h.pair _ hr
      obtain rfl := Option.some.inj (hn.symm.trans hm)
      have hcont := hok (.inl rfl)
      obtain ⟨hmin, hstart, hstop⟩ := CryptoDxState.continuation_ok hapart.span hcont
      refine ⟨fun hnone => (nomatch hr.symm.trans hnone), fun _ => rfl, fun r' hr' => ?_⟩
      obtain rfl := Option.some.inj (hr.symm.trans hr')
      refine ⟨_, rfl, (hapart.continued hcont).1, fun _ hp => (nomatch hp), fun hlt => ?_,
        fun _ _ => ⟨hmin, fun _ => hstart⟩⟩
      refine hidle ?_
      dsimp only at hlt
      unfold CryptoDxState.nextPn at hstart hstop
      omega

theorem decrypt (h : Kept s.app none false taken) {version : Version} {keyPhase : Bool} {pn : Nat}
    {hdr : Span} {data : Bytes}
    (hcall : s.call nss (.decrypt version .applicationData keyPhase pn hdr data) = some (result, s')) :
    Kept s'.app none false taken ∧ (∃ err, result = .error err) ∨
      result = .ok () ∧ ∃ slot dx, s.rx version .applicationData keyPhase = some slot ∧
        s'.deref slot = some dx ∧ Kept s'.app (some ⟨dx.epoch, pn⟩) dx.needsUpdate taken := by
  obtain ⟨slot, a, hslot, rfl, hcases⟩ := CryptoStates.decrypt_application hcall
  have hsame := a.dx.decrypt_sameKeys nss pn hdr data
  obtain ⟨err, herr, hused⟩ | ⟨plain, hplain, hmin, hused⟩ := CryptoDxState.decrypt_used nss a.dx pn hdr data
  · -- The packet is dropped: the keys are as before but for what is left of the limit.
    rw [herr]
    refine .inl ⟨?_, err, rfl⟩
    obtain ⟨_, ha, happ⟩ | ⟨_, ha, happ⟩ := hcases
    · obtain ⟨n, hn, hapart, _, hidle, hruns⟩ := h.pair a ha
      rw [happ]
      refine ⟨fun hnone => (nomatch hnone), fun _ => rfl, fun r hr => ?_⟩
      obtain rfl := Option.some.inj hr
      refine ⟨n, hn, hapart.ofSame hsame hused ⟨rfl, rfl, rfl, rfl, rfl, rfl⟩ rfl, fun _ hp => (nomatch hp),
        hidle, fun hnone ht => ?_⟩
      rw [show (a.dx.decrypt nss pn hdr data).2.nextPn = a.dx.nextPn from congrArg Span.stop hused]
      exact hruns hnone ht
    · rw [happ]
      refine ⟨fun hnone => (nomatch (h.unread hnone).1.symm.trans ha), fun _ => rfl, fun r hr => ?_⟩
      obtain ⟨n, hn, hapart, _, hidle, hruns⟩ := h.pair r hr
      obtain rfl := Option.some.inj (hn.symm.trans ha)
      refine ⟨_, rfl, hapart.ofSame ⟨rfl, rfl, rfl, rfl, rfl, rfl⟩ rfl hsame hused,
        fun _ hp => (nomatch hp), ?_⟩
      show (_ → _) ∧ (_ → _ → (n.dx.decrypt nss pn hdr data).2.minPn = _ ∧ _)
      rw [hused, hsame.minPn]
      exact ⟨hidle, hruns⟩
  · rw [hplain]
    refine .inr ⟨rfl, slot, (a.dx.decrypt nss pn hdr data).2, hslot, ?_, ?_⟩
    · obtain ⟨rfl, _, happ⟩ | ⟨rfl, _, happ⟩ := hcases
      · exact congrArg (Option.map CryptoDxAppData.dx) (congrArg AppKeys.appRead happ)
      · exact congrArg (Option.map CryptoDxAppData.dx) (congrArg AppKeys.appReadNext happ)
    · obtain ⟨_, ha, happ⟩ | ⟨_, ha, happ⟩ := hcases
      · obtain ⟨n, hn, hapart, _, hidle, _⟩ := h.pair a ha
        obtain ⟨hapart', hopened⟩ := hapart.readCurrent hsame hmin (congrArg Span.stop hused)
        rw [happ]
        refine ⟨fun hnone => (nomatch hnone), fun hnone => (nomatch hnone), fun r hr => ?_⟩
        obtain rfl := Option.some.inj hr
        refine ⟨n, hn, hapart', fun p hp => ?_, fun hlt => ?_, fun hnone => (nomatch hnone)⟩
        · obtain rfl := Option.some.inj hp
          exact hopened
        · cases hidle hlt with
          | inl hdue => cases hdue
          | inr htimed => exact .inr htimed
      · rw [happ]
        refine ⟨fun hnone => (nomatch (h.unread hnone).1.symm.trans ha), fun hnone => (nomatch hnone),
          fun r hr => ?_⟩
        obtain ⟨n, hn, hapart, _, hidle, hruns⟩ := h.pair r hr
        obtain rfl := Option.some.inj (hn.symm.trans ha)
        have htimed : n.dx.usedPn.start < n.dx.usedPn.stop → Timed s.app := fun hlt => by
          cases hidle hlt with
          | inl hdue => cases hdue
          | inr htimed => exact htimed
        have hstart : n.dx.usedPn.start < n.dx.usedPn.stop → n.dx.usedPn.start ≤ n.dx.minPn := fun hlt => by
          obtain ⟨hmin', hfirst⟩ := hruns rfl (htimed hlt).1
          rw [hmin', hfirst hlt]
        obtain ⟨hapart', hopened, hdue⟩ := hapart.readNext hsame hmin hstart hused
        refine ⟨_, rfl, hapart', fun p hp => ?_, fun _ => ?_, fun hnone => (nomatch hnone)⟩
        · obtain rfl := Option.some.inj hp
          exact hopened
        · cases Nat.eq_or_lt_of_le hapart.span with
          | inl hempty => exact .inl (hdue hempty)
          | inr hlt => exact .inr (htimed hlt)

theorem keyUpdateReceived {p : Taken} (h : Kept s.app (some p) true taken) {expiration : Nat}
    (hok : (s.keyUpdateReceived nss expiration).1 = .ok ()) :
    Kept (s.keyUpdateReceived nss expiration).2.app (some p) false taken := by
  have hafter : ∃ s' : CryptoStates Secret Aead HpKey, s'.app.appRead = s.app.appRead ∧
      s'.app.appReadNext = s.app.appReadNext ∧
      (s.keyUpdateReceived nss expiration).2 = { s' with
        zeroRtt := if s'.has0rttRead then none else s'.zeroRtt
        readUpdateTime := some expiration } := by
    unfold CryptoStates.keyUpdateReceived at hok ⊢
    cases hm : s.maybeUpdateWrite nss with
    | mk update mid =>
        rw [hm] at hok
        obtain ⟨rfl, err, rfl⟩ | ⟨hmid, rfl, _⟩ | ⟨rfl, _, _, w', _, _, _, _, hmid⟩ :=
          CryptoStates.maybeUpdateWrite_cases hm
        · cases hok
        · exact ⟨mid, by rw [hmid], by rw [hmid], rfl⟩
        · exact ⟨mid, by rw [hmid]; rfl, by rw [hmid]; rfl, rfl⟩
  obtain ⟨s', hread, hnext, heq⟩ := hafter
  rw [heq]
  have htimed : Timed (CryptoStates.app { s' with
      zeroRtt := if s'.has0rttRead then none else s'.zeroRtt
      readUpdateTime := some expiration }) := by
    refine ⟨by simp [CryptoStates.app], ?_⟩
    show (if s'.has0rttRead then none else s'.zeroRtt).any _ = false
    split
    · rfl
    · next hz => exact Bool.eq_false_iff.mpr hz
  refine ⟨fun hnone => ?_, fun hnone => absurd hnone (Option.some_ne_none _), fun r hr => ?_⟩
  · obtain ⟨hn, hopened, htaken⟩ := h.unread (hread.symm.trans hnone)
    exact ⟨hnext.trans hn, hopened, htaken⟩
  · obtain ⟨n, hn, hapart, hopened, _, _⟩ := h.pair r (hread.symm.trans hr)
    exact ⟨n, hnext.trans hn, hapart, hopened, fun _ => .inr htimed,
      fun hnone => absurd hnone (Option.some_ne_none _)⟩

theorem checkPnOverlap {p : Taken} (h : Kept s.app (some p) false taken)
    (hok : s.checkPnOverlap.1 = .ok ()) : Kept s.checkPnOverlap.2.app none false (taken ++ [p]) := by
  cases hr : s.appRead with
  | none => exact nomatch (h.unread hr).2.1
  | some r =>
      obtain ⟨n, hn, hapart, hopened, hidle, _⟩ := h.pair r hr
      have hp := hopened p rfl
      by_cases ht : s.readUpdateTime.isSome = true
      · have hcheck : s.checkPnOverlap = ((n.dx.continuation r.dx).1,
            { s with appReadNext := some { n with dx := (n.dx.continuation r.dx).2 } }) := by
          simp only [CryptoStates.checkPnOverlap, ht, if_true, show s.appReadNext = some n from hn, hr]
        rw [hcheck] at hok ⊢
        obtain ⟨hmin, hstart, hstop⟩ := CryptoDxState.continuation_ok hapart.span hok
        obtain ⟨hapart', hwithin⟩ := hapart.continued hok
        have hepoch : (n.dx.continuation r.dx).2.epoch = n.dx.epoch := by rw [n.dx.continuation_sameKeys]
        have hp' : OpenedBy r.dx (n.dx.continuation r.dx).2 p := by
          obtain hcur | ⟨heq, hin⟩ := hp
          · exact .inl hcur
          · exact .inr ⟨heq.trans hepoch.symm, hwithin p.pn hin⟩
        refine ⟨fun hnone => (nomatch hr.symm.trans hnone), fun _ => rfl, fun r' hr' => ?_⟩
        obtain rfl := Option.some.inj (hr.symm.trans hr')
        refine ⟨_, rfl, hapart'.take hp' fun _ => Nat.le_of_eq hstart.symm, fun _ hq => (nomatch hq),
          fun hlt => ?_, fun _ _ => ⟨hmin, fun _ => hstart⟩⟩
        refine hidle ?_
        dsimp only at hlt
        unfold CryptoDxState.nextPn at hstart hstop
        omega
      · have hcheck : s.checkPnOverlap = (.ok (), s) := by
          simp only [CryptoStates.checkPnOverlap, ht, if_false, Bool.false_eq_true]
        have hempty : ¬n.dx.usedPn.start < n.dx.usedPn.stop := by
          intro hlt
          cases hidle hlt with
          | inl hdue => cases hdue
          | inr htimed => exact ht (Option.isSome_iff_ne_none.mpr htimed.1)
        rw [hcheck]
        refine ⟨fun hnone => (nomatch hr.symm.trans hnone), fun _ => rfl, fun r' hr' => ?_⟩
        obtain rfl := Option.some.inj (hr.symm.trans hr')
        exact ⟨n, hn, hapart.take hp fun hlt => absurd hlt hempty, fun _ hq => (nomatch hq),
          fun hlt => absurd hlt hempty, fun _ ht' => absurd (Option.isSome_iff_ne_none.mpr ht') ht⟩

end Kept

variable {e e' : Reader Secret Aead HpKey} {op : Op Secret}

theorem Reader.step_eq_some (h : e.step nss op = some e') :
    ∃ result s', e.keys.call nss op = some (result, s') ∧ e' = e.note op result s' := by
  obtain ⟨⟨result, s'⟩, hcall, heq⟩ := Option.map_eq_some_iff.mp h
  exact ⟨result, s', hcall, heq.symm⟩

theorem Reader.note_other {result : Except Error Unit} {s' : CryptoStates Secret Aead HpKey}
    (hop : ∀ version keyPhase pn hdr data, op ≠ .decrypt version .applicationData keyPhase pn hdr data)
    (hupdate : ∀ expiration, op ≠ .keyUpdateReceived expiration) (hcheck : op ≠ .checkPnOverlap) :
    e.note op result s' = { e with keys := s' } := by
  unfold Reader.note
  split
  · exact absurd rfl (hop _ _ _ _ _)
  · exact absurd rfl (hupdate _)
  · exact absurd rfl hcheck
  · rfl

theorem kept_other (h : Kept e.keys.app e.opened e.due e.taken) (hregular : Reader.Regular nss e.keys op)
    (hstep : e.step nss op = some e') (hnone : e.opened = none)
    (hok : ∀ now, op = .checkKeyUpdate now → (e.keys.checkKeyUpdate nss now).1 = .ok ())
    (hop : ∀ version keyPhase pn hdr data, op ≠ .decrypt version .applicationData keyPhase pn hdr data)
    (hupdate : ∀ expiration, op ≠ .keyUpdateReceived expiration) (hcheck : op ≠ .checkPnOverlap) :
    Kept e'.keys.app e'.opened e'.due e'.taken := by
  obtain ⟨result, s', hcall, rfl⟩ := Reader.step_eq_some hstep
  have hdue := h.quiet hnone
  rw [Reader.note_other hop hupdate hcheck]
  show Kept s'.app e.opened e.due e.taken
  rw [hnone, hdue] at h ⊢
  refine h.appStep (CryptoStates.call_appStep hcall) hregular (fun hcases => ?_) hop hupdate
  obtain heq | ⟨now, rfl⟩ := hcases
  · exact absurd heq hcheck
  · have hfst := congrArg Prod.fst (Option.some.inj hcall)
    exact hfst.symm.trans (hok now rfl)

-- Every call keeps the packets taken in the order of the keys.
theorem kept_step (h : Kept e.keys.app e.opened e.due e.taken) (hregular : Reader.Regular nss e.keys op)
    (htimely : e.Timely op) (hstep : e.step nss op = some e') :
    Kept e'.keys.app e'.opened e'.due e'.taken := by
  cases op with
  | keyUpdateReceived expiration =>
      obtain ⟨result, s', hcall, rfl⟩ := Reader.step_eq_some hstep
      have hresult : (e.keys.keyUpdateReceived nss expiration) = (result, s') := Option.some.inj hcall
      have hok : (e.keys.keyUpdateReceived nss expiration).1 = .ok () := hregular
      have hdue : e.due = true := htimely
      cases hopened : e.opened with
      | none => exact absurd hdue (by rw [h.quiet hopened]; decide)
      | some p =>
          rw [hopened, hdue] at h
          have hkept := h.keyUpdateReceived hok
          rw [hresult] at hok hkept
          obtain rfl : result = .ok () := hok
          show Kept s'.app e.opened false e.taken
          rw [hopened]
          exact hkept
  | checkPnOverlap =>
      obtain ⟨result, s', hcall, rfl⟩ := Reader.step_eq_some hstep
      have hresult : e.keys.checkPnOverlap = (result, s') := Option.some.inj hcall
      have hok : e.keys.checkPnOverlap.1 = .ok () := hregular
      have hdue : e.due = false := htimely
      obtain rfl : result = .ok () := by
        rw [hresult] at hok
        exact hok
      show Kept s'.app none e.due (e.taken ++ e.opened.toList)
      cases hopened : e.opened with
      | none =>
          rw [hopened, hdue] at h
          rw [hdue, Option.toList_none, List.append_nil]
          exact h.appStep (CryptoStates.call_appStep hcall) hregular (fun _ => rfl)
            (fun _ _ _ _ _ heq => nomatch heq) (fun _ heq => nomatch heq)
      | some p =>
          rw [hopened, hdue] at h
          have hkept := h.checkPnOverlap hok
          rw [hresult] at hkept
          rw [hdue]
          exact hkept
  | decrypt version epoch keyPhase pn hdr data =>
      have hnone : e.opened = none := htimely
      cases epoch with
      | applicationData =>
          obtain ⟨result, s', hcall, rfl⟩ := Reader.step_eq_some hstep
          have hdue := h.quiet hnone
          rw [hnone, hdue] at h
          obtain ⟨hkept, err, rfl⟩ | ⟨rfl, slot, dx, hslot, hderef, hkept⟩ := h.decrypt hcall
          · show Kept s'.app e.opened e.due e.taken
            rw [hnone, hdue]
            exact hkept
          · have hnote : e.note (.decrypt version .applicationData keyPhase pn hdr data) (.ok ()) s' =
                { e with keys := s', opened := some ⟨dx.epoch, pn⟩, due := dx.needsUpdate } := by
              simp only [Reader.note, hslot, Option.bind_some, hderef]
            rw [hnote]
            exact hkept
      | _ =>
          exact kept_other h hregular hstep hnone (fun _ heq => nomatch heq)
            (fun _ _ _ _ _ heq => nomatch heq) (fun _ heq => nomatch heq) (fun heq => nomatch heq)
  | checkKeyUpdate now =>
      refine kept_other h hregular hstep htimely (fun t heq => ?_) (fun _ _ _ _ _ heq => nomatch heq)
        (fun _ heq => nomatch heq) (fun heq => nomatch heq)
      obtain rfl := Op.checkKeyUpdate.inj heq
      exact hregular
  | _ =>
      exact kept_other h hregular hstep htimely (fun _ heq => nomatch heq) (fun _ _ _ _ _ heq => nomatch heq)
        (fun _ heq => nomatch heq) (fun heq => nomatch heq)

-- In every run, what was accepted with older keys has lower packet numbers than
-- what was accepted with newer ones, in whatever order the packets came.
theorem accepted_in_key_order {ops : List (Op Secret)}
    (hmeets : Transition.Meets (Reader.step nss)
      (fun e op => Reader.Regular nss e.keys op ∧ e.Timely op) {} ops)
    (hrun : Transition.run (Reader.step nss) {} ops = some e) {p q : Taken} (hp : p ∈ e.taken)
    (hq : q ∈ e.taken) (hepoch : p.epoch < q.epoch) : p.pn < q.pn := by
  have hkept : Kept e.keys.app e.opened e.due e.taken :=
    Transition.invariant (fun e : Reader Secret Aead HpKey => Kept e.keys.app e.opened e.due e.taken)
      (fun e op e' hinv hok hstep => kept_step hinv hok.1 hok.2 hstep) kept_initial hmeets hrun
  cases hr : e.keys.appRead with
  | none => exact absurd hp (by rw [(hkept.unread hr).2.2]; exact List.not_mem_nil)
  | some r =>
      obtain ⟨_, _, hapart, _⟩ := hkept.pair r hr
      exact hapart.sorted p hp q hq hepoch

-- One packet is opened with the first read keys, and one with those after them.
def peerUpdated : List (Op Nat) := [
  .setHandshakeKeys .version1 5 6 .aes128Gcm,
  .setApplicationWriteKey .version1 8,
  .setApplicationReadKey .version1 9 50,
  .decrypt .version1 .applicationData false 0 ⟨0, 1⟩ (64 :: 70 :: List.replicate 16 73),
  .checkPnOverlap,
  .decrypt .version1 .applicationData true 1 ⟨0, 1⟩ (68 :: 70 :: List.replicate 16 78),
  .keyUpdateReceived 60,
  .checkPnOverlap]

theorem accepted_in_key_order_updated :
    ∃ e : Reader Nat Nat Unit, Transition.run (Reader.step Nss.adding) {} peerUpdated = some e ∧
      ⟨3, 0⟩ ∈ e.taken ∧ ⟨4, 1⟩ ∈ e.taken ∧ (⟨3, 0⟩ : Taken).pn < (⟨4, 1⟩ : Taken).pn := by
  refine ⟨_, rfl, by decide, by decide, ?_⟩
  exact @accepted_in_key_order _ _ _ Nss.adding _ peerUpdated (by decide) rfl ⟨3, 0⟩ ⟨4, 1⟩ (by decide)
    (by decide) (by decide)

end NeverFox.Quic
