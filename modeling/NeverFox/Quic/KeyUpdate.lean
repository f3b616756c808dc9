import NeverFox.Quic.PacketNumbers

namespace NeverFox.Quic

variable {Secret Aead HpKey : Type} {nss : Nss Secret Aead HpKey}

-- 0-RTT write keys come before 1-RTT keys, and no derivation of 1-RTT keys that
-- are set or rotated fails.
def Orderly (nss : Nss Secret Aead HpKey) (s : CryptoStates Secret Aead HpKey) : Op Secret → Prop
  | .set0rttKeys _ dir _ _ => dir = .write → s.appWrite = none
  | .setApplicationWriteKey version secret => (s.setApplicationWriteKey nss version secret).1 = .ok ()
  | .setApplicationReadKey version secret expire =>
    (s.setApplicationReadKey nss version secret expire).1 = .ok ()
  | .checkKeyUpdate now => (s.checkKeyUpdate nss now).1 = .ok ()
  | _ => True

instance (nss : Nss Secret Aead HpKey) (s : CryptoStates Secret Aead HpKey) (op : Op Secret) :
    Decidable (Orderly nss s op) :=
  match op with
  | .set0rttKeys _ dir _ _ => inferInstanceAs (Decidable (dir = .write → s.appWrite = none))
  | .setApplicationWriteKey version secret =>
    inferInstanceAs (Decidable ((s.setApplicationWriteKey nss version secret).1 = .ok ()))
  | .setApplicationReadKey version secret expire =>
    inferInstanceAs (Decidable ((s.setApplicationReadKey nss version secret expire).1 = .ok ()))
  | .checkKeyUpdate now => inferInstanceAs (Decidable ((s.checkKeyUpdate nss now).1 = .ok ()))
  | .init .. | .initServer .. | .confirmVersion .. | .discard .. | .discard0rttKeys | .setHandshakeKeys ..
  | .initiateKeyUpdate .. | .autoUpdate | .keyUpdateReceived .. | .checkPnOverlap | .rxHp ..
  | .encrypt .. | .decrypt .. => isTrue trivial

-- How the keys of the two directions stand to each other. While a timer runs
-- for a key update, the write keys are ahead.
structure InStep (k : AppKeys Secret Aead HpKey) : Prop where
  noWrite : k.appWrite ≠ none → ∀ z, k.zeroRtt = some z → z.direction = .read
  readFrom : k.appRead ≠ none → k.appWrite ≠ none
  alone : k.appRead = none → ∀ w, k.appWrite = some w → w.dx.epoch = Epoch.applicationData.toNat
  timerFrom : k.readUpdateTime ≠ none → k.appRead ≠ none
  next : ∀ r, k.appRead = some r → Epoch.applicationData.toNat ≤ r.dx.epoch ∧
    ∃ n, k.appReadNext = some n ∧ n.dx.epoch = r.dx.epoch + 1
  write : ∀ r w, k.appRead = some r → k.appWrite = some w →
    w.dx.epoch = r.dx.epoch ∨ w.dx.epoch = r.dx.epoch + 1
  pending : ∀ r w, k.appRead = some r → k.appWrite = some w → k.readUpdateTime ≠ none →
    k.zeroRtt.any (·.direction = .read) = false → w.dx.epoch = r.dx.epoch + 1

theorem inStep_initial : InStep (CryptoStates.app ({} : CryptoStates Secret Aead HpKey)) where
  noWrite h := absurd rfl h
  readFrom h := absurd rfl h
  alone _ _ h := nomatch h
  timerFrom h := absurd rfl h
  next _ h := nomatch h
  write _ _ h := nomatch h
  pending _ _ h := nomatch h

namespace InStep

variable {k k' : AppKeys Secret Aead HpKey}

-- Keys that only number other packets than before.
theorem encryptWrite (h : InStep k) {a : CryptoDxAppData Secret Aead HpKey} (ha : k.appWrite = some a)
    {dx : CryptoDxState Aead HpKey} (hsame : a.dx.SameKeys dx) :
    InStep { k with appWrite := some { a with dx := dx } } where
  noWrite _ := h.noWrite (by rw [ha]; simp)
  readFrom _ := by simp
  alone hr w hw := by
    obtain rfl := Option.some.inj hw
    rw [show dx.epoch = a.dx.epoch from hsame.epoch]
    exact h.alone hr a ha
  timerFrom := h.timerFrom
  next := h.next
  write r w hr hw := by
    obtain rfl := Option.some.inj hw
    rw [show dx.epoch = a.dx.epoch from hsame.epoch]
    exact h.write r a hr ha
  pending r w hr hw ht hz := by
    obtain rfl := Option.some.inj hw
    rw [show dx.epoch = a.dx.epoch from hsame.epoch]
    exact h.pending r a hr ha ht hz

theorem decryptRead (h : InStep k) {a : CryptoDxAppData Secret Aead HpKey} (ha : k.appRead = some a)
    {dx : CryptoDxState Aead HpKey} (hsame : a.dx.SameKeys dx) :
    InStep { k with appRead := some { a with dx := dx } } where
  noWrite := h.noWrite
  readFrom _ := h.readFrom (by rw [ha]; simp)
  alone hnone := nomatch hnone
  timerFrom _ := by simp
  next r hr := by
    obtain rfl := Option.some.inj hr
    rw [show dx.epoch = a.dx.epoch from hsame.epoch]
    exact h.next a ha
  write r w hr hw := by
    obtain rfl := Option.some.inj hr
    rw [show dx.epoch = a.dx.epoch from hsame.epoch]
    exact h.write a w ha hw
  pending r w hr hw ht hz := by
    obtain rfl := Option.some.inj hr
    rw [show dx.epoch = a.dx.epoch from hsame.epoch]
    exact h.pending a w ha hw ht hz

theorem readNext (h : InStep k) {a : CryptoDxAppData Secret Aead HpKey} (ha : k.appReadNext = some a)
    {dx : CryptoDxState Aead HpKey} (hepoch : dx.epoch = a.dx.epoch) :
    InStep { k with appReadNext := some { a with dx := dx } } where
  noWrite := h.noWrite
  readFrom := h.readFrom
  alone := h.alone
  timerFrom := h.timerFrom
  next r hr := by
    obtain ⟨hle, n, hn, heq⟩ := h.next r hr
    obtain rfl := Option.some.inj (ha.symm.trans hn)
    exact ⟨hle, _, rfl, hepoch.trans heq⟩
  write := h.write
  pending := h.pending

-- 0-RTT keys of the same direction.
theorem zeroRtt (h : InStep k) {z z' : CryptoDxState Aead HpKey} (hz : k.zeroRtt = some z)
    (hdir : z'.direction = z.direction) : InStep { k with zeroRtt := some z' } where
  noWrite hw y hy := by
    obtain rfl := Option.some.inj hy
    exact hdir.trans (h.noWrite hw z hz)
  readFrom := h.readFrom
  alone := h.alone
  timerFrom := h.timerFrom
  next := h.next
  write := h.write
  pending r w hr hw ht hy := by
    refine h.pending r w hr hw ht ?_
    rw [hz]
    simpa [hdir] using hy

-- The write keys that follow, while they are in step with the read keys.
theorem updateWrite (h : InStep k) {w r w' : CryptoDxAppData Secret Aead HpKey} (hw : k.appWrite = some w)
    (hr : k.appRead = some r) (hepoch : w.dx.epoch = r.dx.epoch) (hnext : w.next nss = .ok w')
    (z : Option (CryptoDxState Aead HpKey)) (hz : ∀ y, z = some y → k.zeroRtt = some y) (t : Option Nat) :
    InStep { k with zeroRtt := z, appWrite := some w', readUpdateTime := t } where
  noWrite _ y hy := h.noWrite (by rw [hw]; simp) y (hz y hy)
  readFrom _ := by simp
  alone hnone := nomatch hr.symm.trans hnone
  timerFrom _ := by rw [hr]; simp
  next := h.next
  write r' v hr' hv := by
    obtain rfl := Option.some.inj (hr.symm.trans hr')
    obtain rfl := Option.some.inj hv
    right
    rw [(next_numbers hnext).2, hepoch]
  pending r' v hr' hv _ _ := by
    obtain rfl := Option.some.inj (hr.symm.trans hr')
    obtain rfl := Option.some.inj hv
    rw [(next_numbers hnext).2, hepoch]

-- The first read keys, beside the first write keys.
theorem installRead (h : InStep k) {w r n : CryptoDxAppData Secret Aead HpKey} (hw : k.appWrite = some w)
    (hr : k.appRead = none) (hrepoch : r.dx.epoch = Epoch.applicationData.toNat) (hnext : r.next nss = .ok n)
    (expire : Nat) :
    InStep { k with
      readUpdateTime := if k.zeroRtt.isSome then some expire else k.readUpdateTime
      appReadNext := some n
      appRead := some r } where
  noWrite := h.noWrite
  readFrom _ := by rw [hw]; simp
  alone hnone := nomatch hnone
  timerFrom _ := by simp
  next r' hr' := by
    obtain rfl := Option.some.inj hr'
    exact ⟨Nat.le_of_eq hrepoch.symm, n, rfl, (next_numbers hnext).2⟩
  write r' v hr' hv := by
    obtain rfl := Option.some.inj hr'
    obtain rfl := Option.some.inj (hw.symm.trans hv)
    left
    rw [h.alone hr w hw, hrepoch]
  pending r' v hr' hv ht hz := by
    -- A timer would be that of 0-RTT read keys.
    have hnone : k.readUpdateTime = none := by
      by_contra hsome
      exact h.timerFrom hsome hr
    cases hzero : k.zeroRtt with
    | none => simp [hzero, hnone] at ht
    | some z =>
        have hread := h.noWrite (by rw [hw]; simp) z hzero
        simp [hzero, hread] at hz

theorem installWrite (h : InStep k) {w : CryptoDxAppData Secret Aead HpKey} (hw : k.appWrite = none)
    (hepoch : w.dx.epoch = Epoch.applicationData.toNat) :
    InStep { k with zeroRtt := none, appWrite := some w } := by
  have hr : k.appRead = none := by
    by_contra hsome
    exact h.readFrom hsome hw
  refine ⟨fun _ _ hz => (nomatch hz), fun _ => by simp, fun _ v hv => ?_, h.timerFrom, h.next,
    fun r v hr' _ => ?_, fun r v hr' _ => ?_⟩
  · obtain rfl := Option.some.inj hv
    exact hepoch
  · exact nomatch hr.symm.trans hr'
  · exact nomatch hr.symm.trans hr'

theorem set0rtt (h : InStep k) {z : CryptoDxState Aead HpKey}
    (hz : z.direction = .write → k.appWrite = none) :
    InStep { k with zeroRtt := some z } := by
  have hread : k.appWrite ≠ none → z.direction = .read := by
    intro hw
    cases hdir : z.direction with
    | read => rfl
    | write => exact absurd (hz hdir) hw
  refine ⟨fun hw y hy => ?_, h.readFrom, h.alone, h.timerFrom, h.next, h.write, fun r w hr hw ht hy => ?_⟩
  · obtain rfl := Option.some.inj hy
    exact hread hw
  · simp [hread (by rw [show k.appWrite = some w from hw]; simp)] at hy

theorem receivedSecond (h : InStep k) {w r : CryptoDxAppData Secret Aead HpKey} (hw : k.appWrite = some w)
    (hr : k.appRead = some r) (hepoch : w.dx.epoch ≠ r.dx.epoch)
    (z : Option (CryptoDxState Aead HpKey)) (hz : ∀ y, z = some y → k.zeroRtt = some y) (t : Option Nat) :
    InStep { k with zeroRtt := z, readUpdateTime := t } where
  noWrite hw' y hy := h.noWrite hw' y (hz y hy)
  readFrom := h.readFrom
  alone := h.alone
  timerFrom _ := by rw [hr]; simp
  next := h.next
  write := h.write
  pending r' w' hr' hw' _ _ := by
    obtain rfl := Option.some.inj (hr.symm.trans hr')
    obtain rfl := Option.some.inj (hw.symm.trans hw')
    cases h.write r w hr hw with
    | inl heq => exact absurd heq hepoch
    | inr heq => exact heq

-- The timer of a key update has run out: the keys after the current ones are current.
theorem rotate (h : InStep k) {n n' : CryptoDxAppData Secret Aead HpKey} (ht : k.readUpdateTime ≠ none)
    (hz : k.zeroRtt.any (·.direction = .read) = false) (hn : k.appReadNext = some n)
    (hnext : n.next nss = .ok n') :
    InStep { k with appRead := some n, appReadNext := some n', readUpdateTime := none } := by
  obtain ⟨r, hr⟩ := Option.ne_none_iff_exists'.mp (h.timerFrom ht)
  obtain ⟨w, hw⟩ := Option.ne_none_iff_exists'.mp (h.readFrom (h.timerFrom ht))
  obtain ⟨hle, m, hm, hmepoch⟩ := h.next r hr
  obtain rfl := Option.some.inj (hn.symm.trans hm)
  refine ⟨h.noWrite, fun _ => by rw [show k.appWrite = some w from hw]; simp, fun hnone => (nomatch hnone),
    fun hnone => absurd rfl hnone, fun r' hr' => ?_, fun r' v hr' hv => ?_,
    fun r' v _ _ ht' => absurd rfl ht'⟩
  · obtain rfl := Option.some.inj hr'
    exact ⟨by omega, n', rfl, (next_numbers hnext).2⟩
  · obtain rfl := Option.some.inj hr'
    obtain rfl := Option.some.inj (hw.symm.trans hv)
    left
    rw [h.pending r w hr hw ht hz, hmepoch]

end InStep

variable {s s' : CryptoStates Secret Aead HpKey} {op : Op Secret} {result : Except Error Unit}

theorem inStep_call (hcall : s.call nss op = some (result, s')) (hassert : Asserted nss s op)
    (horderly : Orderly nss s op) (h : InStep s.app) : InStep s'.app := by
  have hkeep : ∀ y, (if s.has0rttRead then none else s.zeroRtt) = some y → s.zeroRtt = some y := by
    intro y hy
    split at hy
    · cases hy
    · exact hy
  have hstep := CryptoStates.call_appStep hcall
  generalize s'.app = k at hstep
  cases hstep with
  | other _ _ => exact h
  | encryptWrite ha => exact h.encryptWrite ha (CryptoDxState.encrypt_sameKeys ..)
  | encryptZeroRtt _ hz => exact h.zeroRtt hz (CryptoDxState.encrypt_sameKeys ..).direction
  | decryptRead ha _ => exact h.decryptRead ha (CryptoDxState.decrypt_sameKeys ..)
  | decryptNext ha _ => exact h.readNext ha (CryptoDxState.decrypt_sameKeys ..).epoch
  | decryptZeroRtt hz _ => exact h.zeroRtt hz (CryptoDxState.decrypt_sameKeys ..).direction
  | set0rtt hz =>
      obtain ⟨_, _, hdir, _⟩ := CryptoDxState.new_eq_ok hz
      exact h.set0rtt fun hwrite => horderly (hdir.symm.trans hwrite)
  | discard0rtt hr =>
      exact ⟨fun _ _ hz => (nomatch hz), h.readFrom, h.alone, h.timerFrom, h.next, h.write,
        fun r _ hr' => nomatch hr.symm.trans hr'⟩
  | setCipher => exact ⟨h.noWrite, h.readFrom, h.alone, h.timerFrom, h.next, h.write, h.pending⟩
  | installWrite happ happ' => exact h.installWrite hassert.1 (installed_epoch happ happ')
  | installRead happ happ' hnext =>
      obtain ⟨w, hw⟩ := Option.ne_none_iff_exists'.mp hassert.1
      exact h.installRead hw hassert.2 (installed_epoch happ happ') hnext _
  | installReadFailed =>
      have hok : (Except.error _ : Except Error Unit) = .ok () :=
        (congrArg Prod.fst (Option.some.inj hcall)).symm.trans horderly
      cases hok
  | updateWrite _ _ hw hr hepoch hnext =>
      exact h.updateWrite hw hr hepoch hnext s.zeroRtt (fun _ hy => hy) s.readUpdateTime
  | receivedFirst hw hr hepoch hnext => exact h.updateWrite hw hr hepoch hnext _ hkeep _
  | receivedSecond hw hr hepoch => exact h.receivedSecond hw hr hepoch _ hkeep _
  | expire0rtt _ _ =>
      exact ⟨fun _ _ hz => (nomatch hz), h.readFrom, h.alone, fun ht => absurd rfl ht, h.next, h.write,
        fun _ _ _ _ ht => absurd rfl ht⟩
  | rotate ht hz hn hnext =>
      exact h.rotate (by rw [show s.app.readUpdateTime = _ from ht]; simp) hz hn hnext
  | rotateFailed =>
      have hok : (Except.error _ : Except Error Unit) = .ok () :=
        (congrArg Prod.fst (Option.some.inj hcall)).symm.trans horderly
      cases hok
  | overlap _ hn _ =>
      refine h.readNext hn ?_
      rw [CryptoDxState.continuation_sameKeys]

-- Every key phase picks one of the two read keys, the current one or the next.
theorem rx_keyPhase (h : InStep s.app) {r : CryptoDxAppData Secret Aead HpKey} (hr : s.appRead = some r)
    (version : Version) (keyPhase : Bool) :
    ∃ slot a, s.rx version .applicationData keyPhase = some slot ∧ s.deref slot = some a.dx ∧
      a.dx.keyPhase = keyPhase ∧
      ((s.appRead = some a ∧ a.dx.epoch = r.dx.epoch) ∨
        (s.appReadNext = some a ∧ a.dx.epoch = r.dx.epoch + 1)) := by
  obtain ⟨_, n, hn, hepoch⟩ := h.next r hr
  have hn : s.appReadNext = some n := hn
  have hphases : n.dx.keyPhase = !r.dx.keyPhase := by
    unfold CryptoDxState.keyPhase
    rw [hepoch, ← decide_not]
    exact decide_eq_decide.mpr (by omega)
  by_cases hphase : r.dx.keyPhase = keyPhase
  · refine ⟨.appRead, r, ?_, by simp [CryptoStates.deref, hr], hphase, .inl ⟨hr, rfl⟩⟩
    subst hphase
    simp [CryptoStates.rx, hr, hn, hphases]
  · have hnext : n.dx.keyPhase = keyPhase := by
      rw [hphases]
      exact (Bool.eq_not_of_ne fun h => hphase h.symm).symm
    refine ⟨.appReadNext, n, ?_, by simp [CryptoStates.deref, hn], hnext, .inr ⟨hn, hepoch⟩⟩
    simp [CryptoStates.rx, hr, hn, hphase, hnext]

theorem inStep_run {e : Endpoint Secret Aead HpKey} {ops : List (Op Secret)}
    (hmeets : Transition.Meets (step nss) (fun e op => Asserted nss e.keys op ∧ Orderly nss e.keys op) {} ops)
    (hrun : Transition.run (step nss) {} ops = some e) : InStep e.keys.app := by
  refine Transition.invariant (fun e => InStep e.keys.app) (fun e op next hinv hok hstep => ?_)
    inStep_initial hmeets hrun
  obtain ⟨result, hcall, _⟩ := step_eq_some hstep
  exact inStep_call hcall hok.1 hok.2 hinv

end NeverFox.Quic
