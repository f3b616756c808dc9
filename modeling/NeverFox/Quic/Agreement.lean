import NeverFox.Quic.KeyUpdate

namespace NeverFox.Quic

variable {Secret Aead HpKey : Type} {nss : Nss Secret Aead HpKey}

-- The secret behind the first, by a number of updates.
def chain (nss : Nss Secret Aead HpKey) (cipher : Cipher) (secret : Secret) : Nat → Except Error Secret
  | 0 => .ok secret
  | n + 1 => chain nss cipher secret n >>= CryptoDxAppData.updateSecret nss cipher

-- Application keys that come of a secret: those of their epoch.
structure Derived (nss : Nss Secret Aead HpKey) (version : Version) (cipher : Cipher) (secret : Secret)
    (dir : CryptoDxDirection) (a : CryptoDxAppData Secret Aead HpKey) : Prop where
  ofCipher : a.cipher = cipher
  ofVersion : a.dx.version = version
  ofDirection : a.dx.direction = dir
  base : Epoch.applicationData.toNat ≤ a.dx.epoch
  keys : ∃ current, chain nss cipher secret (a.dx.epoch - Epoch.applicationData.toNat) = .ok current ∧
    nss.aeadNew cipher current (nss.labelPrefix version) dir = .ok a.dx.aead ∧
    CryptoDxAppData.updateSecret nss cipher current = .ok a.nextSecret

namespace Derived

variable {version : Version} {cipher : Cipher} {secret : Secret} {dir : CryptoDxDirection}
  {a b : CryptoDxAppData Secret Aead HpKey}

theorem next (h : Derived nss version cipher secret dir a) (hnext : a.next nss = .ok b) :
    Derived nss version cipher secret dir b := by
  obtain ⟨hdx, hcipher, hsecret⟩ := CryptoDxAppData.next_eq_ok hnext
  obtain ⟨_, hversion, hdir, hepoch, _, haead⟩ := CryptoDxState.next_eq_ok _ hdx
  obtain ⟨current, hchain, _, hupdate⟩ := h.keys
  have hbase := h.base
  rw [h.ofCipher, h.ofVersion, h.ofDirection] at haead
  rw [h.ofCipher] at hsecret
  refine ⟨hcipher.trans h.ofCipher, hversion.trans h.ofVersion, hdir.trans h.ofDirection, by omega,
    a.nextSecret, ?_, haead, hsecret⟩
  have hsucc : b.dx.epoch - Epoch.applicationData.toNat = (a.dx.epoch - Epoch.applicationData.toNat) + 1 := by
    omega
  rw [hsucc, chain, hchain]
  exact hupdate

theorem sameKeys (h : Derived nss version cipher secret dir a) {dx : CryptoDxState Aead HpKey}
    (hversion : dx.version = a.dx.version) (hdir : dx.direction = a.dx.direction)
    (hepoch : dx.epoch = a.dx.epoch) (haead : dx.aead = a.dx.aead) :
    Derived nss version cipher secret dir { a with dx := dx } where
  ofCipher := h.ofCipher
  ofVersion := hversion.trans h.ofVersion
  ofDirection := hdir.trans h.ofDirection
  base := hepoch ▸ h.base
  keys := by
    obtain ⟨current, hchain, hnew, hupdate⟩ := h.keys
    exact ⟨current, hepoch ▸ hchain, haead ▸ hnew, hupdate⟩

theorem moved (h : Derived nss version cipher secret dir a) {dx : CryptoDxState Aead HpKey}
    (hsame : a.dx.SameKeys dx) : Derived nss version cipher secret dir { a with dx := dx } :=
  h.sameKeys hsame.version hsame.direction hsame.epoch hsame.aead

theorem installed {s : CryptoStates Secret Aead HpKey} {app : CryptoDxAppData Secret Aead HpKey}
    (hcipher : s.cipher = some cipher) (happ : s.newAppData nss version dir secret = .ok app)
    (happ' : s.afterZeroRtt dir app = .ok a) : Derived nss version cipher secret dir a := by
  obtain ⟨_, hcipher', hsecret', haead', hversion', hdir', hepoch', _⟩ :=
    CryptoStates.installed_app happ happ'
  simp only [CryptoStates.newAppData, hcipher] at happ
  obtain ⟨hdx, hc, hsecret⟩ := CryptoDxAppData.new_eq_ok happ
  obtain ⟨_, hversion, hdir, hepoch, _, haead⟩ := CryptoDxState.new_eq_ok hdx
  have heq : a.dx.epoch = Epoch.applicationData.toNat := hepoch'.trans hepoch
  refine ⟨hcipher'.trans hc, hversion'.trans hversion, hdir'.trans hdir, Nat.le_of_eq heq.symm, secret,
    ?_, ?_, ?_⟩
  · rw [heq, Nat.sub_self]
    rfl
  · rw [haead']
    exact haead
  · rw [hsecret']
    exact hsecret

end Derived

variable {s s' : CryptoStates Secret Aead HpKey} {op : Op Secret} {result : Except Error Unit}
  {k : AppKeys Secret Aead HpKey} {version : Version} {cipher : Cipher} {secret : Secret}

-- Once there are write keys, these are always of their secret.
theorem AppStep.derivedWrite (h : AppStep nss s op result k) (hassert : Asserted nss s op)
    (hs : ∃ a, s.appWrite = some a ∧ Derived nss version cipher secret .write a) :
    ∃ a, k.appWrite = some a ∧ Derived nss version cipher secret .write a := by
  obtain ⟨a, ha, hderived⟩ := hs
  cases h with
  | other _ _ => exact ⟨a, ha, hderived⟩
  | encryptWrite hb =>
      obtain rfl := Option.some.inj (ha.symm.trans hb)
      exact ⟨_, rfl, hderived.moved (CryptoDxState.encrypt_sameKeys ..)⟩
  | encryptZeroRtt _ _ => exact ⟨a, ha, hderived⟩
  | decryptRead _ _ => exact ⟨a, ha, hderived⟩
  | decryptNext _ _ => exact ⟨a, ha, hderived⟩
  | decryptZeroRtt _ _ => exact ⟨a, ha, hderived⟩
  | set0rtt _ => exact ⟨a, ha, hderived⟩
  | discard0rtt _ => exact ⟨a, ha, hderived⟩
  | setCipher => exact ⟨a, ha, hderived⟩
  | installWrite _ _ => exact nomatch hassert.1.symm.trans ha
  | installRead _ _ _ => exact ⟨a, ha, hderived⟩
  | installReadFailed => exact ⟨a, ha, hderived⟩
  | updateWrite _ _ hw _ _ hnext =>
      obtain rfl := Option.some.inj (ha.symm.trans hw)
      exact ⟨_, rfl, hderived.next hnext⟩
  | receivedFirst hw _ _ hnext =>
      obtain rfl := Option.some.inj (ha.symm.trans hw)
      exact ⟨_, rfl, hderived.next hnext⟩
  | receivedSecond _ _ _ => exact ⟨a, ha, hderived⟩
  | expire0rtt _ _ => exact ⟨a, ha, hderived⟩
  | rotate _ _ _ _ => exact ⟨a, ha, hderived⟩
  | rotateFailed => exact ⟨a, ha, hderived⟩
  | overlap _ _ _ => exact ⟨a, ha, hderived⟩

-- So are the read keys, the next ones too.
theorem AppStep.derivedRead (h : AppStep nss s op result k) (hassert : Asserted nss s op)
    (hs : ∃ r n, s.appRead = some r ∧ s.appReadNext = some n ∧ Derived nss version cipher secret .read r ∧
      Derived nss version cipher secret .read n) :
    ∃ r n, k.appRead = some r ∧ k.appReadNext = some n ∧ Derived nss version cipher secret .read r ∧
      Derived nss version cipher secret .read n := by
  obtain ⟨r, n, hr, hn, hrd, hnd⟩ := hs
  cases h with
  | other _ _ => exact ⟨r, n, hr, hn, hrd, hnd⟩
  | encryptWrite _ => exact ⟨r, n, hr, hn, hrd, hnd⟩
  | encryptZeroRtt _ _ => exact ⟨r, n, hr, hn, hrd, hnd⟩
  | decryptRead hb _ =>
      obtain rfl := Option.some.inj (hr.symm.trans hb)
      exact ⟨_, n, rfl, hn, hrd.moved (CryptoDxState.decrypt_sameKeys ..), hnd⟩
  | decryptNext hb _ =>
      obtain rfl := Option.some.inj (hn.symm.trans hb)
      exact ⟨r, _, hr, rfl, hrd, hnd.moved (CryptoDxState.decrypt_sameKeys ..)⟩
  | decryptZeroRtt _ _ => exact ⟨r, n, hr, hn, hrd, hnd⟩
  | set0rtt _ => exact ⟨r, n, hr, hn, hrd, hnd⟩
  | discard0rtt _ => exact ⟨r, n, hr, hn, hrd, hnd⟩
  | setCipher => exact ⟨r, n, hr, hn, hrd, hnd⟩
  | installWrite _ _ => exact ⟨r, n, hr, hn, hrd, hnd⟩
  | installRead _ _ _ => exact nomatch hassert.2.symm.trans hr
  | installReadFailed => exact ⟨r, n, hr, hn, hrd, hnd⟩
  | updateWrite _ _ _ _ _ _ => exact ⟨r, n, hr, hn, hrd, hnd⟩
  | receivedFirst _ _ _ _ => exact ⟨r, n, hr, hn, hrd, hnd⟩
  | receivedSecond _ _ _ => exact ⟨r, n, hr, hn, hrd, hnd⟩
  | expire0rtt _ _ => exact ⟨r, n, hr, hn, hrd, hnd⟩
  | rotate _ _ hm hnext =>
      obtain rfl := Option.some.inj (hn.symm.trans hm)
      exact ⟨n, _, rfl, rfl, hnd, hnd.next hnext⟩
  | rotateFailed => exact ⟨n, r, hn, hr, hnd, hrd⟩
  | overlap _ hm hr' =>
      obtain rfl := Option.some.inj (hn.symm.trans hm)
      refine ⟨r, _, hr, rfl, hrd, hnd.sameKeys ?_ ?_ ?_ ?_⟩
      all_goals rw [CryptoDxState.continuation_sameKeys]

-- The calls of a run that end in the state, with the keys installed by one of
-- them under the cipher.
structure Installs (nss : Nss Secret Aead HpKey) (cipher : Cipher) (op : Op Secret) (ops : List (Op Secret))
    (e : Endpoint Secret Aead HpKey) : Prop where
  meets : Transition.Meets (step nss) (fun e op => Asserted nss e.keys op ∧ Orderly nss e.keys op) {} ops
  run : Transition.run (step nss) {} ops = some e
  installed : ∃ before mid after, ops = before ++ op :: after ∧
    Transition.run (step nss) {} before = some mid ∧ mid.keys.cipher = some cipher

theorem Installs.write {ops : List (Op Secret)} {e : Endpoint Secret Aead HpKey}
    (h : Installs nss cipher (.setApplicationWriteKey version secret) ops e) :
    ∃ a, e.keys.appWrite = some a ∧ Derived nss version cipher secret .write a := by
  obtain ⟨before, mid, after, rfl, hbefore, hcipher⟩ := h.installed
  have hmeets := h.meets.drop hbefore
  have hrun := h.run
  rw [Transition.run_append, hbefore, Option.bind_some] at hrun
  obtain ⟨first, hstep, hafter⟩ := Transition.run_cons_eq_some.mp hrun
  refine Transition.invariant
    (fun e => ∃ a, e.keys.appWrite = some a ∧ Derived nss version cipher secret .write a)
    (fun e op next hinv hok hstep => ?_) ?_ (hmeets.tail hstep) hafter
  · obtain ⟨result, hcall, _⟩ := step_eq_some hstep
    exact (CryptoStates.call_appStep hcall).derivedWrite hok.1 hinv
  · obtain ⟨result, hcall, _⟩ := step_eq_some hstep
    have hok : (mid.keys.setApplicationWriteKey nss version secret).1 = .ok () := hmeets.head.2
    have hkeys : mid.keys.setApplicationWriteKey nss version secret = (result, first.keys) :=
      Option.some.inj hcall
    unfold CryptoStates.setApplicationWriteKey at hkeys hok
    split at hkeys
    · next heq =>
      simp only [heq] at hok
      cases hok
    · next app' hbind =>
      obtain ⟨_, hfirst⟩ := Prod.mk.inj hkeys
      rw [← hfirst]
      cases happ : mid.keys.newAppData nss version .write secret with
      | error err => rw [happ] at hbind; cases hbind
      | ok app => rw [happ] at hbind; exact ⟨app', rfl, .installed hcipher happ hbind⟩

theorem Installs.read {ops : List (Op Secret)} {e : Endpoint Secret Aead HpKey} {expire : Nat}
    (h : Installs nss cipher (.setApplicationReadKey version secret expire) ops e) :
    ∃ r n, e.keys.appRead = some r ∧ e.keys.appReadNext = some n ∧ Derived nss version cipher secret .read r ∧
      Derived nss version cipher secret .read n := by
  obtain ⟨before, mid, after, rfl, hbefore, hcipher⟩ := h.installed
  have hmeets := h.meets.drop hbefore
  have hrun := h.run
  rw [Transition.run_append, hbefore, Option.bind_some] at hrun
  obtain ⟨first, hstep, hafter⟩ := Transition.run_cons_eq_some.mp hrun
  refine Transition.invariant
    (fun e => ∃ r n, e.keys.appRead = some r ∧ e.keys.appReadNext = some n ∧
      Derived nss version cipher secret .read r ∧ Derived nss version cipher secret .read n)
    (fun e op next hinv hok hstep => ?_) ?_ (hmeets.tail hstep) hafter
  · obtain ⟨result, hcall, _⟩ := step_eq_some hstep
    exact (CryptoStates.call_appStep hcall).derivedRead hok.1 hinv
  · obtain ⟨result, hcall, _⟩ := step_eq_some hstep
    have hok : (mid.keys.setApplicationReadKey nss version secret expire).1 = .ok () := hmeets.head.2
    have hkeys : mid.keys.setApplicationReadKey nss version secret expire = (result, first.keys) :=
      Option.some.inj hcall
    unfold CryptoStates.setApplicationReadKey at hkeys hok
    split at hkeys
    · next heq =>
      simp only [heq] at hok
      cases hok
    · next app' hbind =>
      dsimp only at hkeys
      split at hkeys
      · next heq =>
        simp only [hbind, heq] at hok
        cases hok
      · next n hnext =>
        obtain ⟨_, hfirst⟩ := Prod.mk.inj hkeys
        rw [← hfirst]
        cases happ : mid.keys.newAppData nss version .read secret with
        | error err => rw [happ] at hbind; cases hbind
        | ok app =>
            rw [happ] at hbind
            have hderived := Derived.installed hcipher happ hbind
            exact ⟨app', n, rfl, rfl, hderived, hderived.next hnext⟩

-- What the read key of a secret opens: all that its write key sealed. The last
-- octets of the buffer to seal are room for the tag.
def Opens (nss : Nss Secret Aead HpKey) : Prop :=
  ∀ cipher secret label write read pn hdr buffer sealed,
    nss.aeadNew cipher secret label .write = .ok write → nss.aeadNew cipher secret label .read = .ok read →
      nss.encryptInPlace write pn hdr buffer = .ok sealed →
        nss.decryptInPlace read pn hdr sealed = .ok (buffer.take (buffer.length - nss.expansion write))

theorem decrypt_sealed {w d : CryptoDxState Aead HpKey} {pn : Nat} {hdr : Span} {data sealed plain : Bytes}
    (hhdr : hdr.stop ≤ data.length) (hsealed : (w.encrypt nss pn hdr data).1 = .ok sealed)
    (hopens : ∀ sealed, nss.encryptInPlace w.aead pn (hdr.slice data) (data.drop hdr.stop) = .ok sealed →
      nss.decryptInPlace d.aead pn (hdr.slice data) sealed = .ok plain)
    (hleft : 0 < d.invocations) (hmin : d.minPn ≤ pn) :
    (d.decrypt nss pn ⟨0, hdr.stop - hdr.start⟩ (hdr.slice data ++ sealed)).1 = .ok plain := by
  obtain ⟨err, herr, _⟩ | ⟨sealed', hok, _, hinplace, _⟩ := w.encrypt_cases nss pn hdr data
  · rw [herr] at hsealed
    cases hsealed
  · obtain rfl := Except.ok.inj (hok.symm.trans hsealed)
    have hlen : (hdr.slice data).length = hdr.stop - hdr.start := by
      unfold Span.slice
      rw [List.length_drop, List.length_take, Nat.min_eq_left hhdr]
    unfold CryptoDxState.decrypt CryptoDxState.invoked
    rw [if_neg (Nat.ne_of_gt hleft)]
    dsimp only
    rw [List.take_left' hlen, List.drop_left' hlen, hopens sealed' hinplace]
    unfold CryptoDxState.used
    rw [if_neg (by dsimp only; omega)]

-- Two ends of a connection, each after any run of its own: what one seals with
-- its current write keys, the other opens with the read keys that the key phase
-- picks, where its read keys are those of the same key update or the one before.
-- The packet comes without what was coalesced before it.
theorem peer_opens_sealed {opsA opsB : List (Op Secret)} {a b : Endpoint Secret Aead HpKey} {expire : Nat}
    (hnss : Opens nss) (hA : Installs nss cipher (.setApplicationWriteKey version secret) opsA a)
    (hB : Installs nss cipher (.setApplicationReadKey version secret expire) opsB b)
    {w r : CryptoDxAppData Secret Aead HpKey} (hw : a.keys.appWrite = some w) (hr : b.keys.appRead = some r)
    (hepoch : w.epoch = r.epoch ∨ w.epoch = r.epoch + 1) {pn : Nat} {hdr : Span} {data sealed : Bytes}
    (hhdr : hdr.stop ≤ data.length) (hsealed : (w.dx.encrypt nss pn hdr data).1 = .ok sealed) :
    ∃ slot dx, b.keys.rx version .applicationData w.dx.keyPhase = some slot ∧ b.keys.deref slot = some dx ∧
      dx.epoch = w.epoch ∧ (0 < dx.invocations → dx.minPn ≤ pn →
        (dx.decrypt nss pn ⟨0, hdr.stop - hdr.start⟩ (hdr.slice data ++ sealed)).1 =
          .ok ((data.drop hdr.stop).take ((data.drop hdr.stop).length - nss.expansion w.dx.aead))) := by
  obtain ⟨w', hw', hwd⟩ := hA.write
  obtain rfl := Option.some.inj (hw.symm.trans hw')
  obtain ⟨r', n, hr', hn, hrd, hnd⟩ := hB.read
  obtain rfl := Option.some.inj (hr.symm.trans hr')
  obtain ⟨slot, d, hslot, hderef, hphase, hd⟩ :=
    rx_keyPhase (inStep_run hB.meets hB.run) hr version w.dx.keyPhase
  -- The phase tells the two epochs apart.
  have hsame : d.dx.epoch = w.dx.epoch ∧ Derived nss version cipher secret .read d := by
    have hphase' : (d.dx.epoch % 2 ≠ 1) = (w.dx.epoch % 2 ≠ 1) := by
      simpa [CryptoDxState.keyPhase] using hphase
    unfold CryptoDxAppData.epoch at hepoch
    obtain ⟨hdr, hdepoch⟩ | ⟨hdn, hdepoch⟩ := hd
    · obtain rfl := Option.some.inj (hr.symm.trans hdr)
      refine ⟨?_, hrd⟩
      by_cases hodd : r.dx.epoch % 2 = 1
      · simp only [hodd, ne_eq, not_true_eq_false, eq_iff_iff, false_iff, not_not] at hphase'
        omega
      · simp only [hodd, ne_eq, not_false_eq_true, eq_iff_iff, true_iff] at hphase'
        omega
    · obtain rfl := Option.some.inj (hn.symm.trans hdn)
      refine ⟨?_, hnd⟩
      by_cases hodd : n.dx.epoch % 2 = 1
      · simp only [hodd, ne_eq, not_true_eq_false, eq_iff_iff, false_iff, not_not] at hphase'
        omega
      · simp only [hodd, ne_eq, not_false_eq_true, eq_iff_iff, true_iff] at hphase'
        omega
  refine ⟨slot, d.dx, hslot, hderef, hsame.1, fun hleft hmin => ?_⟩
  obtain ⟨current, hchain, hnew, _⟩ := hwd.keys
  obtain ⟨current', hchain', hnew', _⟩ := hsame.2.keys
  rw [hsame.1] at hchain'
  obtain rfl := Except.ok.inj (hchain.symm.trans hchain')
  exact decrypt_sealed hhdr hsealed (fun sealed hin => hnss _ _ _ _ _ _ _ _ _ hnew hnew' hin) hleft hmin

-- The suite that adds keys opens what it sealed.
theorem adding_opens : Opens Nss.adding := by
  intro cipher secret label write read pn hdr buffer sealed hwrite hread hsealed
  obtain rfl := Except.ok.inj hwrite
  obtain rfl := Except.ok.inj hread
  simp only [Nss.adding] at hsealed ⊢
  split at hsealed
  · cases hsealed
  · next hlen =>
    obtain rfl := Except.ok.inj hsealed
    have hbody : ((buffer.take (buffer.length - 16)).map (· + UInt8.ofNat (secret + pn))).length =
        buffer.length - 16 := by
      rw [List.length_map, List.length_take]
      omega
    have hsum : ((buffer.take (buffer.length - 16)).map (· + UInt8.ofNat (secret + pn)) ++
        List.replicate 16 (UInt8.ofNat secret + hdr.foldl (· + ·) 0)).length - 16 = buffer.length - 16 := by
      rw [List.length_append, hbody, List.length_replicate]
      omega
    rw [hsum, List.drop_left' hbody, List.take_left' hbody, if_pos rfl, List.map_map]
    congr 1
    exact List.map_id'' (fun octet => UInt8.add_sub_cancel octet _) _

-- The writer has updated its keys, the reader knows nothing of it yet.
def writerRun : List (Op Nat) := [
  .setHandshakeKeys .version1 5 6 .aes128Gcm,
  .setApplicationWriteKey .version1 9,
  .setApplicationReadKey .version1 8 50,
  .initiateKeyUpdate none]

def readerRun : List (Op Nat) := [
  .setHandshakeKeys .version1 6 5 .aes128Gcm,
  .setApplicationWriteKey .version1 8,
  .setApplicationReadKey .version1 9 50]

theorem peer_opens_sealed_updated :
    ∃ a b w r slot dx, Transition.run (step Nss.adding) {} writerRun = some a ∧
      Transition.run (step Nss.adding) {} readerRun = some b ∧ a.keys.appWrite = some w ∧
      b.keys.appRead = some r ∧ w.epoch = r.epoch + 1 ∧
      b.keys.rx .version1 .applicationData w.dx.keyPhase = some slot ∧ b.keys.deref slot = some dx ∧
      (dx.decrypt Nss.adding 0 ⟨0, 1⟩ (64 :: 80 :: List.replicate 16 74)).1 = .ok [70] := by
  obtain ⟨a, ha⟩ : ∃ a, Transition.run (step Nss.adding) {} writerRun = some a := ⟨_, rfl⟩
  obtain ⟨b, hb⟩ : ∃ b, Transition.run (step Nss.adding) {} readerRun = some b := ⟨_, rfl⟩
  have hA : Installs Nss.adding .aes128Gcm (.setApplicationWriteKey .version1 9) writerRun a :=
    ⟨by decide, ha, [.setHandshakeKeys .version1 5 6 .aes128Gcm], _, _, rfl, rfl, rfl⟩
  have hB : Installs Nss.adding .aes128Gcm (.setApplicationReadKey .version1 9 50) readerRun b :=
    ⟨by decide, hb, readerRun.take 2, _, _, rfl, rfl, rfl⟩
  cases ha
  cases hb
  obtain ⟨slot, dx, hslot, hderef, _, hopens⟩ :=
    @peer_opens_sealed _ _ _ Nss.adding .version1 .aes128Gcm 9 writerRun readerRun _ _ 50 adding_opens hA hB
      _ _ rfl rfl (.inr rfl) 0 ⟨0, 1⟩ (64 :: 70 :: List.replicate 16 0) _ (by decide) rfl
  refine ⟨_, _, _, _, slot, dx, rfl, rfl, rfl, rfl, rfl, hslot, hderef, ?_⟩
  cases hslot
  cases hderef
  exact hopens (by decide) (by decide)

end NeverFox.Quic
