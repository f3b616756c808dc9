import NeverFox.Quic.KeyUpdate

namespace NeverFox.Quic

variable {Secret Aead HpKey : Type} {nss : Nss Secret Aead HpKey}

-- Attempts made with the keys in use at an earlier time.
def past (epoch : Nat) (tried : List Attempt) : Nat :=
  tried.countP fun t => t.current && decide (t.epoch < epoch)

-- Attempts made with keys that are not in use yet.
def ahead (epoch : Nat) (tried : List Attempt) : Nat :=
  tried.countP fun t => !t.current && decide (epoch < t.epoch)

-- Attempts made with the keys after those in use at the time.
def early (tried : List Attempt) : Nat := tried.countP fun t => !t.current

-- What the counters of the read keys have been charged with.
structure Charged (k : AppKeys Secret Aead HpKey) (tried : List Attempt) : Prop where
  unread : k.appRead = none → k.appReadNext = none ∧ tried = []
  epochs : ∀ r, k.appRead = some r → ∀ t ∈ tried,
    t.epoch ≤ r.dx.epoch ∨ (t.current = false ∧ t.epoch = r.dx.epoch + 1)
  next : ∀ r n, k.appRead = some r → k.appReadNext = some n → n.cipher = r.cipher ∧ n.dx.direction = .read ∧
    n.dx.invocations + early tried = CryptoDxState.limit .read r.cipher
  read : ∀ r, k.appRead = some r → r.dx.invocations + tried.length =
    CryptoDxState.limit .read r.cipher + past r.dx.epoch tried + ahead r.dx.epoch tried

namespace Charged

variable {k k' : AppKeys Secret Aead HpKey} {tried : List Attempt}

theorem frame (h : Charged k tried) (hread : k'.appRead = k.appRead)
    (hnext : k'.appReadNext = k.appReadNext) :
    Charged k' tried where
  unread hnone := hnext ▸ h.unread (hread ▸ hnone)
  epochs r hr := h.epochs r (hread ▸ hr)
  next r n hr hn := h.next r n (hread ▸ hr) (hnext ▸ hn)
  read r hr := h.read r (hread ▸ hr)

-- An attempt with the keys in use takes one of what is left of theirs.
theorem decryptRead (h : Charged k tried) {r : CryptoDxAppData Secret Aead HpKey} (hr : k.appRead = some r)
    {dx : CryptoDxState Aead HpKey} (hsame : r.dx.SameKeys dx)
    (hinv : dx.invocations + 1 = r.dx.invocations) {t : Attempt} (ht : t.current = true)
    (hepoch : t.epoch = r.dx.epoch) :
    Charged { k with appRead := some { r with dx := dx } } (tried ++ [t]) where
  unread hnone := nomatch hnone
  epochs r' hr' t' ht' := by
    obtain rfl := Option.some.inj hr'
    rw [show dx.epoch = r.dx.epoch from hsame.epoch]
    cases List.mem_append.mp ht' with
    | inl hmem => exact h.epochs r hr t' hmem
    | inr hmem => exact .inl (by rw [List.mem_singleton.mp hmem, hepoch])
  next r' n hr' hn := by
    obtain rfl := Option.some.inj hr'
    obtain ⟨hcipher, hdir, hcount⟩ := h.next r n hr hn
    refine ⟨hcipher, hdir, ?_⟩
    have hearly : early (tried ++ [t]) = early tried := by simp [early, ht]
    rw [hearly]
    exact hcount
  read r' hr' := by
    obtain rfl := Option.some.inj hr'
    have hcount := h.read r hr
    have hpast : past dx.epoch (tried ++ [t]) = past r.dx.epoch tried := by
      simp [past, hsame.epoch, hepoch]
    have hahead : ahead dx.epoch (tried ++ [t]) = ahead r.dx.epoch tried := by
      simp [ahead, hsame.epoch, ht]
    show dx.invocations + (tried ++ [t]).length =
      CryptoDxState.limit .read r.cipher + past dx.epoch (tried ++ [t]) + ahead dx.epoch (tried ++ [t])
    rw [hpast, hahead, List.length_append, List.length_singleton]
    omega

-- An attempt with the next keys takes one of what is left of those.
theorem decryptNext (h : Charged k tried) {r n : CryptoDxAppData Secret Aead HpKey} (hr : k.appRead = some r)
    (hn : k.appReadNext = some n) (hnepoch : n.dx.epoch = r.dx.epoch + 1) {dx : CryptoDxState Aead HpKey}
    (hsame : n.dx.SameKeys dx) (hinv : dx.invocations + 1 = n.dx.invocations) {t : Attempt}
    (ht : t.current = false) (hepoch : t.epoch = n.dx.epoch) :
    Charged { k with appReadNext := some { n with dx := dx } } (tried ++ [t]) where
  unread hnone := nomatch hr.symm.trans hnone
  epochs r' hr' t' ht' := by
    obtain rfl := Option.some.inj (hr.symm.trans hr')
    cases List.mem_append.mp ht' with
    | inl hmem => exact h.epochs r hr t' hmem
    | inr hmem =>
        rw [List.mem_singleton.mp hmem]
        exact .inr ⟨ht, by omega⟩
  next r' n' hr' hn' := by
    obtain rfl := Option.some.inj (hr.symm.trans hr')
    obtain rfl := Option.some.inj hn'
    obtain ⟨hcipher, hdir, hcount⟩ := h.next r n hr hn
    refine ⟨hcipher, hsame.direction.trans hdir, ?_⟩
    have hearly : early (tried ++ [t]) = early tried + 1 := by simp [early, ht]
    rw [hearly]
    show dx.invocations + (early tried + 1) = _
    omega
  read r' hr' := by
    obtain rfl := Option.some.inj (hr.symm.trans hr')
    have hcount := h.read r hr
    have hpast : past r.dx.epoch (tried ++ [t]) = past r.dx.epoch tried := by simp [past, ht]
    have hahead : ahead r.dx.epoch (tried ++ [t]) = ahead r.dx.epoch tried + 1 := by
      simp [ahead, ht, show r.dx.epoch < t.epoch by omega]
    rw [hpast, hahead, List.length_append, List.length_singleton]
    omega

theorem early_add_current (tried : List Attempt) :
    early tried + tried.countP (fun t => t.current) = tried.length := by
  rw [List.length_eq_countP_add_countP (fun t : Attempt => t.current), Nat.add_comm]
  unfold early
  congr 1
  apply List.countP_congr
  intro t _
  simp

-- The next keys become current: of the attempts before, only those made early
-- stay charged.
theorem rotate (h : Charged k tried) {r n n' : CryptoDxAppData Secret Aead HpKey} (hr : k.appRead = some r)
    (hn : k.appReadNext = some n) (hnepoch : n.dx.epoch = r.dx.epoch + 1) (hnext : n.next nss = .ok n')
    (t : Option Nat) :
    Charged { k with appRead := some n, appReadNext := some n', readUpdateTime := t } tried := by
  obtain ⟨hcipher, hdir, hcount⟩ := h.next r n hr hn
  obtain ⟨hdx, hcipher', _⟩ := CryptoDxAppData.next_eq_ok hnext
  obtain ⟨_, _, hdir', _, hinv, _⟩ := CryptoDxState.next_eq_ok _ hdx
  rw [if_pos hdir] at hinv
  refine ⟨fun hnone => (nomatch hnone), fun r' hr' a ha => ?_, fun r' m hr' hm => ?_, fun r' hr' => ?_⟩
  · obtain rfl := Option.some.inj hr'
    cases h.epochs r hr a ha with
    | inl hle => exact .inl (by omega)
    | inr hlater => exact .inl (by omega)
  · obtain rfl := Option.some.inj hr'
    obtain rfl := Option.some.inj hm
    exact ⟨hcipher', hdir'.trans hdir, by rw [hinv, hcipher, hcount]⟩
  · obtain rfl := Option.some.inj hr'
    have hpast : past n.dx.epoch tried = tried.countP (fun a => a.current) := by
      apply List.countP_congr
      intro a ha
      cases h.epochs r hr a ha with
      | inl hle => simp [show a.epoch < n.dx.epoch by omega]
      | inr hlater => simp [hlater.1]
    have hahead : ahead n.dx.epoch tried = 0 := by
      apply List.countP_eq_zero.mpr
      intro a ha
      have hle : a.epoch ≤ n.dx.epoch := by
        cases h.epochs r hr a ha with
        | inl hle => omega
        | inr hlater => omega
      simp [Nat.not_lt.mpr hle]
    have hsum := early_add_current tried
    rw [hpast, hahead, hcipher]
    omega

theorem installRead (h : Charged k tried) (hr : k.appRead = none) {r n : CryptoDxAppData Secret Aead HpKey}
    (hdir : r.dx.direction = .read) (hinv : r.dx.invocations = CryptoDxState.limit .read r.cipher)
    (hnext : r.next nss = .ok n) (t : Option Nat) :
    Charged { k with readUpdateTime := t, appReadNext := some n, appRead := some r } tried := by
  obtain ⟨_, rfl⟩ := h.unread hr
  obtain ⟨hdx, hcipher', _⟩ := CryptoDxAppData.next_eq_ok hnext
  obtain ⟨_, _, hdir', _, hninv, _⟩ := CryptoDxState.next_eq_ok _ hdx
  rw [if_pos hdir] at hninv
  refine ⟨fun hnone => (nomatch hnone), fun _ _ _ ha => (nomatch ha), fun r' m hr' hm => ?_, fun r' hr' => ?_⟩
  · obtain rfl := Option.some.inj hr'
    obtain rfl := Option.some.inj hm
    exact ⟨hcipher', hdir'.trans hdir, by rw [hninv, hinv]; rfl⟩
  · obtain rfl := Option.some.inj hr'
    exact hinv

end Charged

variable {s s' : CryptoStates Secret Aead HpKey} {op : Op Secret} {result : Except Error Unit}
  {tried : List Attempt}

theorem attempts_of_slot {version : Version} {keyPhase : Bool} {pn : Nat} {hdr : Span} {data : Bytes}
    {slot : Slot} {dx : CryptoDxState Aead HpKey} (hslot : s.rx version .applicationData keyPhase = some slot)
    (hdx : s.deref slot = some dx) :
    s.attempts (.decrypt version .applicationData keyPhase pn hdr data) result =
      if dx.invocations = 0 then [] else [⟨slot = .appRead, dx.epoch, pn, result.isOk⟩] := by
  simp only [CryptoStates.attempts, hslot, hdx]

theorem charged_decryptRead (h : Charged s.app tried) {version : Version} {keyPhase : Bool} {pn : Nat}
    {hdr : Span} {data : Bytes} {r : CryptoDxAppData Secret Aead HpKey} (hr : s.appRead = some r)
    (hslot : s.rx version .applicationData keyPhase = some .appRead) :
    Charged { s.app with appRead := some { r with dx := (r.dx.decrypt nss pn hdr data).2 } }
      (tried ++ s.attempts (.decrypt version .applicationData keyPhase pn hdr data) result) := by
  have hinv := r.dx.decrypt_invocations nss pn hdr data
  have hsame := r.dx.decrypt_sameKeys nss pn hdr data
  rw [attempts_of_slot hslot (show s.deref .appRead = some r.dx by simp [CryptoStates.deref, hr])]
  split
  · next hzero =>
    rw [List.append_nil]
    refine ⟨fun hnone => absurd hnone (Option.some_ne_none _), fun r' hr' => ?_,
      fun r' n hr' hn => ?_, fun r' hr' => ?_⟩
    · obtain rfl := Option.some.inj hr'
      rw [show (r.dx.decrypt nss pn hdr data).2.epoch = r.dx.epoch from hsame.epoch]
      exact h.epochs r hr
    · obtain rfl := Option.some.inj hr'
      exact h.next r n hr hn
    · obtain rfl := Option.some.inj hr'
      have hcount := h.read r hr
      rw [show (r.dx.decrypt nss pn hdr data).2.epoch = r.dx.epoch from hsame.epoch]
      show (r.dx.decrypt nss pn hdr data).2.invocations + tried.length = _
      rw [hinv, hzero]
      rw [hzero] at hcount
      exact hcount
  · next hpos => exact h.decryptRead hr hsame (by omega) (by simp) rfl

theorem charged_decryptNext (h : Charged s.app tried) (hstep : InStep s.app) {version : Version}
    {keyPhase : Bool} {pn : Nat} {hdr : Span} {data : Bytes} {n : CryptoDxAppData Secret Aead HpKey}
    (hn : s.appReadNext = some n) (hslot : s.rx version .applicationData keyPhase = some .appReadNext) :
    Charged { s.app with appReadNext := some { n with dx := (n.dx.decrypt nss pn hdr data).2 } }
      (tried ++ s.attempts (.decrypt version .applicationData keyPhase pn hdr data) result) := by
  have hinv := n.dx.decrypt_invocations nss pn hdr data
  have hsame := n.dx.decrypt_sameKeys nss pn hdr data
  cases hr : s.appRead with
  | none => exact absurd ((h.unread hr).1.symm.trans hn).symm (Option.some_ne_none _)
  | some r =>
      obtain ⟨_, m, hm, hmepoch⟩ := hstep.next r hr
      obtain rfl := Option.some.inj (hn.symm.trans hm)
      rw [attempts_of_slot hslot (show s.deref .appReadNext = some n.dx by simp [CryptoStates.deref, hn])]
      split
      · next hzero =>
        rw [List.append_nil]
        refine ⟨fun hnone => absurd (hr.symm.trans hnone) (Option.some_ne_none _), h.epochs,
          fun r' m hr' hm => ?_, h.read⟩
        obtain rfl := Option.some.inj hm
        obtain ⟨hcipher, hdir, hcount⟩ := h.next r' n hr' hn
        refine ⟨hcipher, hsame.direction.trans hdir, ?_⟩
        show (n.dx.decrypt nss pn hdr data).2.invocations + early tried = _
        rw [hinv, hzero]
        rw [hzero] at hcount
        exact hcount
      · next hpos => exact h.decryptNext hr hn hmepoch hsame (by omega) (by simp) rfl

theorem charged_call (hcall : s.call nss op = some (result, s')) (hassert : Asserted nss s op)
    (horderly : Orderly nss s op) (hstep : InStep s.app) (h : Charged s.app tried) :
    Charged s'.app (tried ++ s.attempts op result) := by
  have hquiet : ∀ {k : AppKeys Secret Aead HpKey}, k.appRead = s.appRead → k.appReadNext = s.appReadNext →
      Charged k (tried ++ []) := by
    intro k hread hnext
    rw [List.append_nil]
    exact h.frame hread hnext
  have happStep := CryptoStates.call_appStep hcall
  generalize s'.app = k at happStep
  cases happStep with
  | other _ hattempts =>
      rw [hattempts]
      exact hquiet rfl rfl
  | encryptWrite _ => exact hquiet rfl rfl
  | encryptZeroRtt _ _ => exact hquiet rfl rfl
  | decryptRead hr hslot => exact charged_decryptRead h hr hslot
  | decryptNext hn hslot => exact charged_decryptNext h hstep hn hslot
  | decryptZeroRtt _ _ => exact hquiet rfl rfl
  | set0rtt _ => exact hquiet rfl rfl
  | discard0rtt _ => exact hquiet rfl rfl
  | setCipher => exact hquiet rfl rfl
  | installWrite _ _ => exact hquiet rfl rfl
  | installRead happ happ' hnext =>
      obtain ⟨_, hcipher, _, _, _, hdir, _, hinv⟩ := CryptoStates.installed_app happ happ'
      unfold CryptoStates.newAppData at happ
      split at happ
      · cases happ
      · obtain ⟨hdx, hcipher', _⟩ := CryptoDxAppData.new_eq_ok happ
        obtain ⟨_, _, hdir', _, hinv', _⟩ := CryptoDxState.new_eq_ok hdx
        rw [show s.attempts (.setApplicationReadKey _ _ _) (.ok ()) = [] from rfl, List.append_nil]
        refine h.installRead hassert.2 (hdir.trans hdir') ?_ hnext _
        rw [hinv, hinv', hcipher, hcipher']
  | installReadFailed =>
      have hok : (Except.error _ : Except Error Unit) = .ok () :=
        (congrArg Prod.fst (Option.some.inj hcall)).symm.trans horderly
      cases hok
  | updateWrite _ hattempts _ _ _ _ =>
      rw [hattempts]
      exact hquiet rfl rfl
  | receivedFirst _ _ _ _ => exact hquiet rfl rfl
  | receivedSecond _ _ _ => exact hquiet rfl rfl
  | expire0rtt _ _ => exact hquiet rfl rfl
  | rotate ht _ hn hnext =>
      rw [show s.attempts (.checkKeyUpdate _) (.ok ()) = [] from rfl, List.append_nil]
      obtain ⟨r, hr⟩ := Option.ne_none_iff_exists'.mp (hstep.timerFrom (by
        rw [show s.app.readUpdateTime = _ from ht]
        simp))
      obtain ⟨_, m, hm, hmepoch⟩ := hstep.next r hr
      obtain rfl := Option.some.inj (hn.symm.trans hm)
      exact h.rotate hr hn hmepoch hnext none
  | rotateFailed =>
      have hok : (Except.error _ : Except Error Unit) = .ok () :=
        (congrArg Prod.fst (Option.some.inj hcall)).symm.trans horderly
      cases hok
  | overlap _ hn hr =>
      rw [show s.attempts .checkPnOverlap _ = [] from rfl, List.append_nil]
      refine ⟨fun hnone => (nomatch hr.symm.trans hnone), h.epochs, fun r' m hr' hm => ?_, h.read⟩
      obtain rfl := Option.some.inj hm
      obtain ⟨hcipher, hdir, hcount⟩ := h.next r' _ hr' hn
      refine ⟨hcipher, ?_, ?_⟩
      · rw [CryptoDxState.continuation_sameKeys]
        exact hdir
      · rw [CryptoDxState.continuation_sameKeys]
        exact hcount

-- What the counter of the current read keys has been charged with, after any
-- run: of all attempts on the way, those made with keys that were current then
-- and are not any more are missing, for a rotation takes the counter over from
-- keys derived before them. (An attempt with the next keys is charged to them.)
theorem read_attempts_charged {e : Endpoint Secret Aead HpKey} {ops : List (Op Secret)}
    (hmeets : Transition.Meets (step nss) (fun e op => Asserted nss e.keys op ∧ Orderly nss e.keys op) {} ops)
    (hrun : Transition.run (step nss) {} ops = some e) {r : CryptoDxAppData Secret Aead HpKey}
    (hr : e.keys.appRead = some r) :
    r.dx.invocations + e.tried.length =
      CryptoDxState.limit .read r.cipher + past r.dx.epoch e.tried + ahead r.dx.epoch e.tried := by
  refine ((Transition.invariant (fun e => InStep e.keys.app ∧ Charged e.keys.app e.tried)
    (fun e op next hinv hok hstep => ?_) ⟨inStep_initial, ?_⟩ hmeets hrun).2).read r hr
  · obtain ⟨result, hcall, _, htried⟩ := step_eq_some hstep
    refine ⟨inStep_call hcall hok.1 hok.2 hinv.1, ?_⟩
    rw [htried]
    exact charged_call hcall hok.1 hok.2 hinv.1 hinv.2
  · exact ⟨fun _ => ⟨rfl, rfl⟩, fun _ h => (nomatch h), fun _ _ h => (nomatch h), fun _ h => (nomatch h)⟩

-- One packet is opened with the first read keys, one with those after them, and
-- then the peer's update is complete.
def peerUpdates : List (Op Nat) := [
  .setHandshakeKeys .version1 5 6 .aes128Gcm,
  .setApplicationWriteKey .version1 8,
  .setApplicationReadKey .version1 9 50,
  .decrypt .version1 .applicationData false 0 ⟨0, 1⟩ (64 :: 70 :: List.replicate 16 73),
  .decrypt .version1 .applicationData true 1 ⟨0, 1⟩ (68 :: 70 :: List.replicate 16 78),
  .keyUpdateReceived 60,
  .checkKeyUpdate 60]

theorem read_attempts_charged_updated :
    ∃ e r, Transition.run (step Nss.adding) {} peerUpdates = some e ∧ e.keys.appRead = some r ∧
      r.dx.invocations + e.tried.length =
        CryptoDxState.limit .read r.cipher + past r.dx.epoch e.tried + ahead r.dx.epoch e.tried := by
  refine ⟨_, _, rfl, rfl, ?_⟩
  exact @read_attempts_charged _ _ _ Nss.adding _ peerUpdates (by decide) rfl _ rfl

end NeverFox.Quic
