import Mathlib.Data.List.Range
import NeverFox.Quic.Endpoint

namespace NeverFox.Quic

variable {Secret Aead HpKey : Type} {nss : Nss Secret Aead HpKey}

namespace CryptoStates

variable {s : CryptoStates Secret Aead HpKey} {version : Version} {pn : Nat} {hdr : Span} {data : Bytes}

theorem seals_error (op : Op Secret) (err : Error) : s.seals nss op (.error err) = [] := by
  cases op with
  | encrypt version space pn hdr data => cases space <;> rfl
  | _ => rfl

theorem seals_appWrite {a : CryptoDxAppData Secret Aead HpKey} (ha : s.appWrite = some a) :
    s.seals nss (.encrypt version .applicationData pn hdr data) (.ok ()) =
      [⟨a.dx.epoch, pn, a.dx.bodyLen nss hdr data⟩] := by
  simp [seals, selectTxMut, deref, ha]

theorem seals_zeroRtt {z : CryptoDxState Aead HpKey} (ha : s.appWrite = none) (hz : s.zeroRtt = some z) :
    s.seals nss (.encrypt version .applicationData pn hdr data) (.ok ()) =
      [⟨z.epoch, pn, z.bodyLen nss hdr data⟩] := by
  simp [seals, selectTxMut, deref, ha, hz]

end CryptoStates

namespace AppKeys

variable (k : AppKeys Secret Aead HpKey)

-- The number of the next packet of the application data space, by the keys
-- that would protect it, and their epoch.
def nextPn : Nat :=
  match k.appWrite with
  | some a => a.dx.nextPn
  | none => (k.zeroRtt.filter (·.direction = .write)).elim 0 CryptoDxState.nextPn

def writeEpoch : Nat :=
  match k.appWrite with
  | some a => a.dx.epoch
  | none => Epoch.zeroRtt.toNat

-- The epochs of the keys are those of their kinds.
structure Epochs : Prop where
  zeroRtt : ∀ z, k.zeroRtt = some z → z.epoch = Epoch.zeroRtt.toNat
  appWrite : ∀ a, k.appWrite = some a → Epoch.applicationData.toNat ≤ a.dx.epoch

end AppKeys

-- 0-RTT keys are set and discarded only where they do not number packets.
def KeepsZeroRtt (s : CryptoStates Secret Aead HpKey) : Op Secret → Prop
  | .set0rttKeys _ _ _ _ => s.appWrite ≠ none
  | .discard0rttKeys => s.appWrite ≠ none
  | _ => True

instance (s : CryptoStates Secret Aead HpKey) (op : Op Secret) : Decidable (KeepsZeroRtt s op) :=
  match op with
  | .set0rttKeys .. | .discard0rttKeys => inferInstanceAs (Decidable (s.appWrite ≠ none))
  | .init .. | .initServer .. | .confirmVersion .. | .discard .. | .setHandshakeKeys ..
  | .setApplicationWriteKey .. | .setApplicationReadKey .. | .initiateKeyUpdate .. | .autoUpdate
  | .keyUpdateReceived .. | .checkKeyUpdate .. | .checkPnOverlap | .rxHp .. | .encrypt ..
  | .decrypt .. => isTrue trivial

variable {s : CryptoStates Secret Aead HpKey} {op : Op Secret} {result : Except Error Unit}
  {k : AppKeys Secret Aead HpKey}

theorem installed_epoch {version : Version} {dir : CryptoDxDirection} {secret : Secret}
    {app app' : CryptoDxAppData Secret Aead HpKey} (happ : s.newAppData nss version dir secret = .ok app)
    (happ' : s.afterZeroRtt dir app = .ok app') : app'.dx.epoch = Epoch.applicationData.toNat := by
  obtain ⟨_, _, _, _, _, _, hepoch, _⟩ := CryptoStates.installed_app happ happ'
  unfold CryptoStates.newAppData at happ
  split at happ
  · cases happ
  · obtain ⟨hdx, _⟩ := CryptoDxAppData.new_eq_ok happ
    obtain ⟨_, _, _, hnew, _⟩ := CryptoDxState.new_eq_ok hdx
    rw [hepoch, hnew]

theorem AppStep.epochs (h : AppStep nss s op result k) (hs : s.app.Epochs) : k.Epochs := by
  have hkeep : ∀ z, (if s.has0rttRead then none else s.zeroRtt) = some z → s.zeroRtt = some z := by
    intro z hz
    split at hz
    · cases hz
    · exact hz
  cases h with
  | other _ _ => exact hs
  | @encryptWrite _ _ _ _ a ha =>
      refine ⟨hs.zeroRtt, fun b hb => ?_⟩
      obtain rfl := Option.some.inj hb
      rw [(a.dx.encrypt_sameKeys ..).epoch]
      exact hs.appWrite a ha
  | @encryptZeroRtt _ _ _ _ z ha hz =>
      refine ⟨fun y hy => ?_, hs.appWrite⟩
      obtain rfl := Option.some.inj hy
      rw [(z.encrypt_sameKeys ..).epoch]
      exact hs.zeroRtt z hz
  | decryptRead _ _ => exact ⟨hs.zeroRtt, hs.appWrite⟩
  | decryptNext _ _ => exact ⟨hs.zeroRtt, hs.appWrite⟩
  | @decryptZeroRtt _ _ _ _ _ z hz _ =>
      refine ⟨fun y hy => ?_, hs.appWrite⟩
      obtain rfl := Option.some.inj hy
      rw [(z.decrypt_sameKeys ..).epoch]
      exact hs.zeroRtt z hz
  | set0rtt hz =>
      refine ⟨fun y hy => ?_, hs.appWrite⟩
      obtain rfl := Option.some.inj hy
      obtain ⟨_, _, _, hepoch, _⟩ := CryptoDxState.new_eq_ok hz
      exact hepoch
  | discard0rtt _ => exact ⟨fun y hy => (nomatch hy), hs.appWrite⟩
  | setCipher => exact ⟨hs.zeroRtt, hs.appWrite⟩
  | installWrite happ happ' =>
      refine ⟨fun y hy => (nomatch hy), fun b hb => ?_⟩
      obtain rfl := Option.some.inj hb
      exact Nat.le_of_eq (installed_epoch happ happ').symm
  | installRead _ _ _ => exact ⟨hs.zeroRtt, hs.appWrite⟩
  | installReadFailed => exact ⟨hs.zeroRtt, hs.appWrite⟩
  | updateWrite _ _ hw _ _ hnext =>
      refine ⟨hs.zeroRtt, fun b hb => ?_⟩
      obtain rfl := Option.some.inj hb
      obtain ⟨_, _, _, hepoch, _⟩ := CryptoDxState.next_eq_ok _ (CryptoDxAppData.next_eq_ok hnext).1
      have := hs.appWrite _ hw
      omega
  | receivedFirst hw _ _ hnext =>
      refine ⟨fun z hz => hs.zeroRtt z (hkeep z hz), fun b hb => ?_⟩
      obtain rfl := Option.some.inj hb
      obtain ⟨_, _, _, hepoch, _⟩ := CryptoDxState.next_eq_ok _ (CryptoDxAppData.next_eq_ok hnext).1
      have := hs.appWrite _ hw
      omega
  | receivedSecond _ _ _ => exact ⟨fun z hz => hs.zeroRtt z (hkeep z hz), hs.appWrite⟩
  | expire0rtt _ _ => exact ⟨fun y hy => (nomatch hy), hs.appWrite⟩
  | rotate _ _ _ _ => exact ⟨hs.zeroRtt, hs.appWrite⟩
  | rotateFailed => exact ⟨hs.zeroRtt, hs.appWrite⟩
  | overlap _ _ _ => exact ⟨hs.zeroRtt, hs.appWrite⟩

-- Packets protected between two states of the keys: their numbers are the ones
-- that follow, without a gap, and their epochs do not fall.
structure Numbered (k : AppKeys Secret Aead HpKey) (new : List Sealed) (k' : AppKeys Secret Aead HpKey) :
    Prop where
  pns : new.map Sealed.pn = List.range' k.nextPn new.length
  nextPn : k'.nextPn = k.nextPn + new.length
  sorted : new.Pairwise fun p q => p.epoch ≤ q.epoch
  between : ∀ p ∈ new, k.writeEpoch ≤ p.epoch ∧ p.epoch ≤ k'.writeEpoch
  mono : k.writeEpoch ≤ k'.writeEpoch

namespace Numbered

variable {k k₁ k₂ : AppKeys Secret Aead HpKey} {new more : List Sealed}

theorem silent (hpn : k₁.nextPn = k.nextPn) (hepoch : k.writeEpoch ≤ k₁.writeEpoch) : Numbered k [] k₁ :=
  ⟨rfl, hpn, .nil, fun _ hp => (nomatch hp), hepoch⟩

theorem one {p : Sealed} (hpn : p.pn = k.nextPn) (hnext : k₁.nextPn = k.nextPn + 1)
    (hepoch : p.epoch = k.writeEpoch) (hsame : k₁.writeEpoch = k.writeEpoch) : Numbered k [p] k₁ where
  pns := by simp [hpn]
  nextPn := hnext
  sorted := List.pairwise_singleton _ _
  between q hq := by
    obtain rfl := List.mem_singleton.mp hq
    omega
  mono := by omega

theorem trans (h : Numbered k new k₁) (h' : Numbered k₁ more k₂) : Numbered k (new ++ more) k₂ where
  pns := by
    rw [List.map_append, h.pns, h'.pns, h.nextPn, List.range'_append_1, List.length_append]
  nextPn := by
    rw [h'.nextPn, h.nextPn, List.length_append, Nat.add_assoc]
  sorted := List.pairwise_append.mpr ⟨h.sorted, h'.sorted, fun p hp q hq =>
    Nat.le_trans (h.between p hp).2 (h'.between q hq).1⟩
  between p hp := by
    have hmono := h.mono
    have hmono' := h'.mono
    cases List.mem_append.mp hp with
    | inl hp => have := h.between p hp; omega
    | inr hp => have := h'.between p hp; omega
  mono := Nat.le_trans h.mono h'.mono

end Numbered

-- An encryption with the keys that number the packets.
theorem numbered_encrypt {version : Version} {pn : Nat} {hdr : Span} {data : Bytes}
    {dx : CryptoDxState Aead HpKey} (hpn : pn = dx.nextPn) (hnext : s.app.nextPn = dx.nextPn)
    (hepoch : s.app.writeEpoch = dx.epoch) (hnext' : k.nextPn = (dx.encrypt nss pn hdr data).2.nextPn)
    (hepoch' : k.writeEpoch = (dx.encrypt nss pn hdr data).2.epoch)
    (hseals : s.seals nss (.encrypt version .applicationData pn hdr data) (.ok ()) =
      [⟨dx.epoch, pn, dx.bodyLen nss hdr data⟩]) :
    Numbered s.app (s.seals nss (.encrypt version .applicationData pn hdr data)
      ((dx.encrypt nss pn hdr data).1.map fun _ => ())) k := by
  have hsame := (dx.encrypt_sameKeys nss pn hdr data).epoch
  obtain ⟨err, herr, hused, _⟩ | ⟨sealed, hok, _, _, hused, _⟩ := dx.encrypt_cases nss pn hdr data
  · rw [herr]
    have hseals' : s.seals nss (.encrypt version .applicationData pn hdr data) (.error err) = [] :=
      s.seals_error _ err
    rw [show (Except.error err : Except Error Bytes).map (fun _ => ()) = .error err from rfl, hseals']
    apply Numbered.silent
    · rw [hnext', hnext, CryptoDxState.nextPn, hused, CryptoDxState.nextPn]
    · omega
  · rw [hok, show (Except.ok sealed : Except Error Bytes).map (fun _ => ()) = .ok () from rfl, hseals]
    apply Numbered.one
    · rw [hnext, hpn]
    · rw [hnext', hnext, CryptoDxState.nextPn, hused, hpn, CryptoDxState.nextPn]
      omega
    · exact hepoch.symm
    · omega

theorem nextPn_installWrite {version : Version} {secret : Secret}
    {app app' : CryptoDxAppData Secret Aead HpKey}
    (hnone : s.appWrite = none) (happ : s.newAppData nss version .write secret = .ok app)
    (happ' : s.afterZeroRtt .write app = .ok app') : app'.dx.nextPn = s.app.nextPn := by
  obtain ⟨hfresh, _⟩ := CryptoStates.installed_app happ happ'
  simp only [AppKeys.nextPn, CryptoStates.app, hnone, CryptoDxState.nextPn, hfresh.usedPn]

theorem next_numbers {w w' : CryptoDxAppData Secret Aead HpKey} (h : w.next nss = .ok w') :
    w'.dx.nextPn = w.dx.nextPn ∧ w'.dx.epoch = w.dx.epoch + 1 := by
  obtain ⟨hfresh, _, _, hepoch, _⟩ := CryptoDxState.next_eq_ok _ (CryptoDxAppData.next_eq_ok h).1
  exact ⟨by rw [CryptoDxState.nextPn, hfresh.usedPn], hepoch⟩

theorem AppStep.numbered (h : AppStep nss s op result k) (hs : s.app.Epochs) (hassert : Asserted nss s op)
    (hkeep : KeepsZeroRtt s op) : Numbered s.app (s.seals nss op result) k := by
  cases h with
  | other hseals _ =>
      rw [hseals]
      exact .silent rfl (Nat.le_refl _)
  | @encryptWrite version pn hdr data a ha =>
      obtain ⟨_, _, hpn, _⟩ := hassert (.applicationData, .appWrite)
        (by simp [CryptoStates.selectTxMut, ha]) a.dx (by simp [CryptoStates.deref, ha])
      apply numbered_encrypt hpn
      · simp [AppKeys.nextPn, CryptoStates.app, ha]
      · simp [AppKeys.writeEpoch, CryptoStates.app, ha]
      · rfl
      · rfl
      · exact CryptoStates.seals_appWrite ha
  | @encryptZeroRtt version pn hdr data z ha hz =>
      obtain ⟨hdir, _, hpn, _⟩ := hassert (.zeroRtt, .zeroRtt)
        (by simp [CryptoStates.selectTxMut, ha, hz]) z (by simp [CryptoStates.deref, hz])
      have hdir' := (z.encrypt_sameKeys nss pn hdr data).direction
      apply numbered_encrypt hpn
      · simp [AppKeys.nextPn, CryptoStates.app, ha, hz, Option.filter, hdir]
      · simp [AppKeys.writeEpoch, CryptoStates.app, ha, hs.zeroRtt z hz]
      · simp [AppKeys.nextPn, CryptoStates.app, ha, Option.filter, hdir', hdir]
      · simp [AppKeys.writeEpoch, CryptoStates.app, ha, (z.encrypt_sameKeys nss pn hdr data).epoch,
          hs.zeroRtt z hz]
      · exact CryptoStates.seals_zeroRtt ha hz
  | decryptRead _ _ => exact .silent rfl (Nat.le_refl _)
  | decryptNext _ _ => exact .silent rfl (Nat.le_refl _)
  | @decryptZeroRtt _ _ pn hdr data z hz hread =>
      have hread' := (z.decrypt_sameKeys nss pn hdr data).direction
      apply Numbered.silent
      · simp only [AppKeys.nextPn, CryptoStates.app, hz]
        split
        · rfl
        · simp [Option.filter, hread', hread]
      · exact Nat.le_refl _
  | set0rtt _ =>
      cases ha : s.appWrite with
      | none => exact absurd ha hkeep
      | some a =>
          apply Numbered.silent
          · simp [AppKeys.nextPn, CryptoStates.app, ha]
          · simp [AppKeys.writeEpoch, CryptoStates.app, ha]
  | discard0rtt _ =>
      cases ha : s.appWrite with
      | none => exact absurd ha hkeep
      | some a =>
          apply Numbered.silent
          · simp [AppKeys.nextPn, CryptoStates.app, ha]
          · simp [AppKeys.writeEpoch, CryptoStates.app, ha]
  | setCipher => exact .silent rfl (Nat.le_refl _)
  | installWrite happ happ' =>
      apply Numbered.silent
      · exact nextPn_installWrite hassert.1 happ happ'
      · simp [AppKeys.writeEpoch, CryptoStates.app, hassert.1, installed_epoch happ happ', Epoch.toNat]
  | installRead _ _ _ => exact .silent rfl (Nat.le_refl _)
  | installReadFailed => exact .silent rfl (Nat.le_refl _)
  | updateWrite hseals _ hw _ _ hnext =>
      obtain ⟨hpn, hepoch⟩ := next_numbers hnext
      rw [hseals]
      apply Numbered.silent
      · simp [AppKeys.nextPn, CryptoStates.app, hw, hpn]
      · simp [AppKeys.writeEpoch, CryptoStates.app, hw, hepoch]
  | receivedFirst hw _ _ hnext =>
      obtain ⟨hpn, hepoch⟩ := next_numbers hnext
      apply Numbered.silent
      · simp [AppKeys.nextPn, CryptoStates.app, hw, hpn]
      · simp [AppKeys.writeEpoch, CryptoStates.app, hw, hepoch]
  | receivedSecond hw _ _ =>
      apply Numbered.silent
      · simp [AppKeys.nextPn, CryptoStates.app, hw]
      · exact Nat.le_refl _
  | expire0rtt _ hz =>
      apply Numbered.silent
      · simp only [AppKeys.nextPn, CryptoStates.app]
        split
        · rfl
        · have hfilter : s.zeroRtt.filter (·.direction = .write) = none := by
            cases hzero : s.zeroRtt with
            | none => rfl
            | some z =>
                simp only [CryptoStates.has0rttRead, hzero, Option.any_some, decide_eq_true_eq] at hz
                simp [Option.filter, hz]
          rw [hfilter]
          rfl
      · exact Nat.le_refl _
  | rotate _ _ _ _ => exact .silent rfl (Nat.le_refl _)
  | rotateFailed => exact .silent rfl (Nat.le_refl _)
  | overlap _ _ _ => exact .silent rfl (Nat.le_refl _)

theorem step_eq_some {e e' : Endpoint Secret Aead HpKey} (h : step nss e op = some e') :
    ∃ result, e.keys.call nss op = some (result, e'.keys) ∧ e'.sent = e.sent ++ e.keys.seals nss op result ∧
      e'.tried = e.tried ++ e.keys.attempts op result := by
  obtain ⟨⟨result, keys⟩, hcall, rfl⟩ := Option.map_eq_some_iff.mp h
  exact ⟨result, hcall, rfl, rfl⟩

theorem epochs_initial : (CryptoStates.app ({} : CryptoStates Secret Aead HpKey)).Epochs :=
  ⟨fun _ h => (nomatch h), fun _ h => (nomatch h)⟩

theorem epochs_run {e e' : Endpoint Secret Aead HpKey} {ops : List (Op Secret)} (hepochs : e.keys.app.Epochs)
    (hrun : Transition.run (step nss) e ops = some e') : e'.keys.app.Epochs := by
  refine Transition.invariant_always (fun e => e.keys.app.Epochs) (fun e op next hinv hstep => ?_)
    hepochs hrun
  obtain ⟨result, hcall, _⟩ := step_eq_some hstep
  exact (CryptoStates.call_appStep hcall).epochs hinv

theorem packet_numbers_follow {e e' : Endpoint Secret Aead HpKey} {ops : List (Op Secret)}
    (hepochs : e.keys.app.Epochs)
    (hmeets : Transition.Meets (step nss) (fun e op => Asserted nss e.keys op ∧ KeepsZeroRtt e.keys op) e ops)
    (hrun : Transition.run (step nss) e ops = some e') :
    ∃ new, e'.sent = e.sent ++ new ∧ Numbered e.keys.app new e'.keys.app := by
  induction ops generalizing e with
  | nil =>
      obtain rfl := Option.some.inj hrun
      exact ⟨[], (List.append_nil _).symm, .silent rfl (Nat.le_refl _)⟩
  | cons op ops ih =>
      obtain ⟨mid, hstep, hrun⟩ := Transition.run_cons_eq_some.mp hrun
      obtain ⟨result, hcall, hsent, _⟩ := step_eq_some hstep
      have happ := CryptoStates.call_appStep hcall
      obtain ⟨hassert, hkeep⟩ := hmeets.head
      obtain ⟨new, hnew, hnumbered⟩ := ih (happ.epochs hepochs) (hmeets.tail hstep) hrun
      refine ⟨e.keys.seals nss op result ++ new, ?_, (happ.numbered hepochs hassert hkeep).trans hnumbered⟩
      rw [hnew, hsent, List.append_assoc]

-- From every state that calls on the keys reach, and whatever is called after:
-- the packets of the application data space are numbered one after the other
-- through 0-RTT keys, 1-RTT keys and all their updates, so that no number is
-- used twice, and never with older keys after newer ones.
theorem packet_numbers_consecutive {e e' : Endpoint Secret Aead HpKey} {before after : List (Op Secret)}
    (hbefore : Transition.run (step nss) {} before = some e)
    (hmeets : Transition.Meets (step nss)
      (fun e op => Asserted nss e.keys op ∧ KeepsZeroRtt e.keys op) e after)
    (hafter : Transition.run (step nss) e after = some e') :
    ∃ new, e'.sent = e.sent ++ new ∧ new.map Sealed.pn = List.range' e.keys.app.nextPn new.length ∧
      (new.map Sealed.pn).Nodup ∧ new.Pairwise fun p q => p.epoch ≤ q.epoch := by
  obtain ⟨new, hnew, hnumbered⟩ := packet_numbers_follow (epochs_run epochs_initial hbefore) hmeets hafter
  refine ⟨new, hnew, hnumbered.pns, ?_, hnumbered.sorted⟩
  rw [hnumbered.pns]
  exact List.nodup_range'

-- A client that sends with 0-RTT keys, then with 1-RTT keys, and once they are updated.
def earlyThenUpdated : List (Op Nat) := [
  .set0rttKeys .version1 .write 7 .aes128Gcm,
  .encrypt .version1 .applicationData 0 ⟨0, 2⟩ (List.replicate 20 1),
  .setHandshakeKeys .version1 5 6 .aes128Gcm,
  .setApplicationWriteKey .version1 8,
  .setApplicationReadKey .version1 9 50,
  .encrypt .version1 .applicationData 1 ⟨0, 2⟩ (List.replicate 20 1),
  .initiateKeyUpdate none,
  .encrypt .version1 .applicationData 2 ⟨0, 2⟩ (List.replicate 20 1)]

theorem packet_numbers_consecutive_updated :
    ∃ e e' new, Transition.run (step Nss.adding) {} (earlyThenUpdated.take 1) = some e ∧
      Transition.run (step Nss.adding) e (earlyThenUpdated.drop 1) = some e' ∧ e'.sent = e.sent ++ new ∧
        new.map Sealed.pn = List.range' e.keys.app.nextPn new.length ∧ (new.map Sealed.pn).Nodup ∧
          new.Pairwise fun p q => p.epoch ≤ q.epoch := by
  obtain ⟨new, hnew⟩ := @packet_numbers_consecutive _ _ _ Nss.adding _ _ (earlyThenUpdated.take 1)
    (earlyThenUpdated.drop 1) rfl (by decide) rfl
  exact ⟨_, _, new, rfl, rfl, hnew⟩

end NeverFox.Quic
