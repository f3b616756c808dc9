import NeverFox.Quic.PacketNumbers

namespace NeverFox.Quic

variable {Secret Aead HpKey : Type} {nss : Nss Secret Aead HpKey}

-- How many packets a write key may protect from one of this size on.
def allowance (cipher : Cipher) (bodyLen : Nat) : Nat :=
  CryptoDxState.limit .write cipher >>> ((bodyLen - 1).size - 11)

theorem shiftRight_antitone (x : Nat) {m n : Nat} (h : m ≤ n) : x >>> n ≤ x >>> m := by
  obtain ⟨d, rfl⟩ := Nat.exists_eq_add_of_le h
  rw [Nat.shiftRight_add]
  exact Nat.shiftRight_le _ _

theorem allowance_antitone (cipher : Cipher) {m n : Nat} (h : m ≤ n) :
    allowance cipher n ≤ allowance cipher m := by
  apply shiftRight_antitone
  exact Nat.sub_le_sub_right (Nat.size_le_size (Nat.sub_le_sub_right h 1)) 11

theorem allowance_initial (cipher : Cipher) :
    allowance cipher initialLargestPacketLen = CryptoDxState.limit .write cipher := by
  cases cipher <;> decide

-- A size of 16 bits has its bits counted by the leading zeros.
theorem leadingZeros_sub {m n : Nat} (hmn : m ≤ n) (hn : n ≤ 65535) :
    leadingZeros (m - 1) - leadingZeros (n - 1) = (n - 1).size - (m - 1).size := by
  have hsize : (n - 1).size ≤ 16 := Nat.size_le.mpr (by omega)
  have hle : (m - 1).size ≤ (n - 1).size := Nat.size_le_size (by omega)
  unfold leadingZeros
  omega

theorem eleven_le_size {n : Nat} (h : initialLargestPacketLen ≤ n) : 11 ≤ (n - 1).size := by
  apply Nat.lt_size.mpr
  unfold initialLargestPacketLen at h
  omega

-- What is left of a key's limit, by the largest packet so far.
structure Limited (cipher : Cipher) (dx : CryptoDxState Aead HpKey) : Prop where
  lower : initialLargestPacketLen ≤ dx.largestPacketLen
  upper : dx.largestPacketLen ≤ 65535
  left : dx.invocations ≤ allowance cipher dx.largestPacketLen

theorem Limited.grown {cipher : Cipher} {dx : CryptoDxState Aead HpKey} (h : Limited cipher dx) {n : Nat}
    (hn : n ≤ 65535) :
    Limited cipher (dx.grown n) ∧ (dx.grown n).invocations ≤ dx.invocations ∧
      n ≤ (dx.grown n).largestPacketLen := by
  unfold CryptoDxState.grown
  split
  · next hgt =>
    have hlower := h.lower
    refine ⟨⟨by dsimp only; omega, hn, ?_⟩, Nat.shiftRight_le _ _, Nat.le_refl _⟩
    have hsize := eleven_le_size h.lower
    have hle : (dx.largestPacketLen - 1).size ≤ (n - 1).size := Nat.size_le_size (by omega)
    have hsum : (n - 1).size - 11 =
        ((dx.largestPacketLen - 1).size - 11) + ((n - 1).size - (dx.largestPacketLen - 1).size) := by omega
    dsimp only
    rw [leadingZeros_sub (Nat.le_of_lt hgt) hn, allowance, hsum, Nat.shiftRight_add]
    rw [Nat.shiftRight_eq_div_pow, Nat.shiftRight_eq_div_pow]
    exact Nat.div_le_div_right h.left
  · next hle => exact ⟨h, Nat.le_refl _, by omega⟩

theorem Limited.encrypt {cipher : Cipher} {dx : CryptoDxState Aead HpKey} (h : Limited cipher dx) {pn : Nat}
    {hdr : Span} {data : Bytes} (hlen : dx.bodyLen nss hdr data ≤ 65535) :
    Limited cipher (dx.encrypt nss pn hdr data).2 := by
  obtain ⟨hgrown, _, _⟩ := h.grown hlen
  obtain ⟨_, _, _, hinv, hlargest⟩ | ⟨_, _, _, _, _, hinv, hlargest⟩ := dx.encrypt_cases nss pn hdr data
  · exact ⟨hlargest ▸ hgrown.lower, hlargest ▸ hgrown.upper, hlargest ▸ Nat.le_trans hinv hgrown.left⟩
  · refine ⟨hlargest ▸ hgrown.lower, hlargest ▸ hgrown.upper, hlargest ▸ ?_⟩
    have := hgrown.left
    omega

theorem Limited.fresh {cipher : Cipher} {dx : CryptoDxState Aead HpKey} {pn : Nat} (h : dx.Fresh pn)
    (hinv : dx.invocations = CryptoDxState.limit .write cipher) : Limited cipher dx := by
  refine ⟨Nat.le_of_eq h.largest.symm, ?_, ?_⟩
  · rw [h.largest]
    decide
  · rw [h.largest, allowance_initial, hinv]

-- The packets protected with the keys of one epoch.
def ofEpoch (epoch : Nat) (sent : List Sealed) : List Sealed := sent.filter (·.epoch = epoch)

-- What of each packet's allowance the packets after it have used, those to
-- come included.
structure Budget (k : AppKeys Secret Aead HpKey) (sent : List Sealed) : Prop where
  early : k.appWrite = none → ∀ p ∈ sent, p.epoch = Epoch.zeroRtt.toNat
  older : ∀ a, k.appWrite = some a → ∀ p ∈ sent, p.epoch ≤ a.dx.epoch
  limited : ∀ a, k.appWrite = some a → a.dx.direction = .write ∧ Limited a.cipher a.dx
  spent : ∀ a, k.appWrite = some a → ∀ pre p post, sent = pre ++ p :: post →
    Epoch.applicationData.toNat ≤ p.epoch →
      (ofEpoch p.epoch post).length + (if p.epoch = a.dx.epoch then a.dx.invocations else 0) <
        allowance a.cipher p.bodyLen

namespace Budget

variable {k k' : AppKeys Secret Aead HpKey} {sent : List Sealed}

theorem frame (h : Budget k sent) (hsame : k'.appWrite = k.appWrite) : Budget k' sent where
  early hnone := h.early (hsame ▸ hnone)
  older a ha := h.older a (hsame ▸ ha)
  limited a ha := h.limited a (hsame ▸ ha)
  spent a ha := h.spent a (hsame ▸ ha)

theorem encryptZeroRtt (h : Budget k sent) (ha : k.appWrite = none) (ha' : k'.appWrite = none)
    {new : List Sealed}
    (hnew : ∀ p ∈ new, p.epoch = Epoch.zeroRtt.toNat) : Budget k' (sent ++ new) where
  early _ p hp := by
    cases List.mem_append.mp hp with
    | inl hp => exact h.early ha p hp
    | inr hp => exact hnew p hp
  older a hsome := by rw [ha'] at hsome; cases hsome
  limited a hsome := by rw [ha'] at hsome; cases hsome
  spent a hsome := by rw [ha'] at hsome; cases hsome

-- The first application keys: what was sent before them is of another epoch.
theorem installWrite (h : Budget k sent) (ha : k.appWrite = none) {a : CryptoDxAppData Secret Aead HpKey}
    (ha' : k'.appWrite = some a) (hepoch : a.dx.epoch = Epoch.applicationData.toNat)
    (hdir : a.dx.direction = .write) (hlimited : Limited a.cipher a.dx) : Budget k' sent where
  early hnone := by rw [ha'] at hnone; cases hnone
  older b hb p hp := by
    obtain rfl := Option.some.inj (ha'.symm.trans hb)
    rw [hepoch, h.early ha p hp]
    decide
  limited b hb := by
    obtain rfl := Option.some.inj (ha'.symm.trans hb)
    exact ⟨hdir, hlimited⟩
  spent b hb pre p post hsplit hp := by
    have hzero := h.early ha p (by rw [hsplit]; exact List.mem_append_right _ List.mem_cons_self)
    rw [hzero] at hp
    exact absurd hp (by decide)

-- New keys start with a budget of their own, and the old ones keep what they used.
theorem update (h : Budget k sent) {a a' : CryptoDxAppData Secret Aead HpKey} (ha : k.appWrite = some a)
    (ha' : k'.appWrite = some a') (hnext : a.next nss = .ok a') : Budget k' sent := by
  obtain ⟨hdir, hlimited⟩ := h.limited a ha
  obtain ⟨hdx, hcipher, _⟩ := CryptoDxAppData.next_eq_ok hnext
  obtain ⟨hfresh, _, hdir', hepoch, hinv, _⟩ := CryptoDxState.next_eq_ok _ hdx
  refine ⟨fun hnone => ?_, fun b hb p hp => ?_, fun b hb => ?_, fun b hb pre p post hsplit hp => ?_⟩
  · rw [ha'] at hnone
    cases hnone
  · obtain rfl := Option.some.inj (ha'.symm.trans hb)
    have := h.older a ha p hp
    omega
  · obtain rfl := Option.some.inj (ha'.symm.trans hb)
    refine ⟨hdir'.trans hdir, .fresh hfresh ?_⟩
    rw [hinv, hcipher, hdir]
    rfl
  · obtain rfl := Option.some.inj (ha'.symm.trans hb)
    have hle := h.older a ha p (by rw [hsplit]; exact List.mem_append_right _ List.mem_cons_self)
    have hspent := h.spent a ha pre p post hsplit hp
    rw [if_neg (by omega), hcipher]
    omega

theorem encryptFailed (h : Budget k sent) {a : CryptoDxAppData Secret Aead HpKey} (ha : k.appWrite = some a)
    {dx : CryptoDxState Aead HpKey} (ha' : k'.appWrite = some { a with dx := dx })
    (hsame : CryptoDxState.SameKeys a.dx dx) (hlimited : Limited a.cipher dx)
    (hinv : dx.invocations ≤ a.dx.invocations) : Budget k' sent where
  early hnone := by rw [ha'] at hnone; cases hnone
  older b hb p hp := by
    obtain rfl := Option.some.inj (ha'.symm.trans hb)
    rw [hsame.epoch]
    exact h.older a ha p hp
  limited b hb := by
    obtain rfl := Option.some.inj (ha'.symm.trans hb)
    exact ⟨hsame.direction.trans (h.limited a ha).1, hlimited⟩
  spent b hb pre p post hsplit hp := by
    obtain rfl := Option.some.inj (ha'.symm.trans hb)
    have hspent := h.spent a ha pre p post hsplit hp
    rw [hsame.epoch]
    split at hspent
    · next heq =>
      rw [if_pos heq]
      show (ofEpoch p.epoch post).length + dx.invocations < allowance a.cipher p.bodyLen
      omega
    · next hne => rw [if_neg hne]; exact hspent

-- One more packet: it takes one of what is left, for itself and for those before it.
theorem encryptOk (h : Budget k sent) {a : CryptoDxAppData Secret Aead HpKey} (ha : k.appWrite = some a)
    {dx : CryptoDxState Aead HpKey} (ha' : k'.appWrite = some { a with dx := dx })
    (hsame : CryptoDxState.SameKeys a.dx dx) (hlimited : Limited a.cipher dx) {q : Sealed}
    (hq : q.epoch = a.dx.epoch) (hinv : dx.invocations < a.dx.invocations)
    (hleft : dx.invocations < allowance a.cipher q.bodyLen) : Budget k' (sent ++ [q]) where
  early hnone := by rw [ha'] at hnone; cases hnone
  older b hb p hp := by
    obtain rfl := Option.some.inj (ha'.symm.trans hb)
    rw [hsame.epoch]
    cases List.mem_append.mp hp with
    | inl hp => exact h.older a ha p hp
    | inr hp => exact Nat.le_of_eq (by rw [List.mem_singleton.mp hp, hq])
  limited b hb := by
    obtain rfl := Option.some.inj (ha'.symm.trans hb)
    exact ⟨hsame.direction.trans (h.limited a ha).1, hlimited⟩
  spent b hb pre p post hsplit hp := by
    obtain rfl := Option.some.inj (ha'.symm.trans hb)
    rw [hsame.epoch]
    cases List.eq_nil_or_concat post with
    | inl hnil =>
        subst hnil
        obtain ⟨_, hpq⟩ := List.append_inj' hsplit rfl
        obtain rfl := List.head_eq_of_cons_eq hpq
        simpa [ofEpoch, hq] using hleft
    | inr hconcat =>
        obtain ⟨rest, last, rfl⟩ := hconcat
        have hsplit' : sent ++ [q] = (pre ++ p :: rest) ++ [last] := by
          rw [hsplit, List.concat_eq_append, List.append_assoc, List.cons_append]
        obtain ⟨hsent, hlast⟩ := List.append_inj' hsplit' rfl
        obtain rfl := List.head_eq_of_cons_eq hlast
        have hspent := h.spent a ha pre p rest hsent hp
        simp only [ofEpoch, List.concat_eq_append, List.filter_append, List.length_append]
        unfold ofEpoch at hspent
        by_cases heq : p.epoch = a.dx.epoch
        · rw [if_pos heq] at hspent ⊢
          simp only [hq, heq, decide_true, List.filter_cons_of_pos, List.filter_nil, List.length_singleton]
          rw [heq] at hspent
          omega
        · rw [if_neg heq] at hspent ⊢
          have hne : ¬(a.dx.epoch = p.epoch) := fun h => heq h.symm
          simp only [hq, hne, decide_false, Bool.false_eq_true, not_false_eq_true, List.filter_cons_of_neg,
            List.filter_nil, List.length_nil]
          omega

end Budget

variable {s : CryptoStates Secret Aead HpKey} {op : Op Secret} {result : Except Error Unit}
  {k : AppKeys Secret Aead HpKey} {sent : List Sealed}

theorem budget_encryptWrite {version : Version} {pn : Nat} {hdr : Span} {data : Bytes}
    {a : CryptoDxAppData Secret Aead HpKey} (h : Budget s.app sent) (ha : s.appWrite = some a)
    (hlen : a.dx.bodyLen nss hdr data ≤ 65535)
    (hk : k.appWrite = some { a with dx := (a.dx.encrypt nss pn hdr data).2 }) :
    Budget k (sent ++ s.seals nss (.encrypt version .applicationData pn hdr data)
      ((a.dx.encrypt nss pn hdr data).1.map fun _ => ())) := by
  obtain ⟨_, hlimited⟩ := h.limited a ha
  obtain ⟨hgrown, hle, hlarge⟩ := hlimited.grown hlen
  have hlimited' : Limited a.cipher (a.dx.encrypt nss pn hdr data).2 := hlimited.encrypt hlen
  have hsame := a.dx.encrypt_sameKeys nss pn hdr data
  obtain ⟨err, herr, _, hinv, _⟩ | ⟨sealed, hok, _, _, _, hinv, _⟩ := a.dx.encrypt_cases nss pn hdr data
  · rw [herr, show (Except.error err : Except Error Bytes).map (fun _ => ()) = .error err from rfl,
      CryptoStates.seals_error, List.append_nil]
    exact h.encryptFailed ha hk hsame hlimited' (Nat.le_trans hinv hle)
  · rw [hok, show (Except.ok sealed : Except Error Bytes).map (fun _ => ()) = .ok () from rfl,
      CryptoStates.seals_appWrite ha]
    refine h.encryptOk ha hk hsame hlimited' rfl (by omega) ?_
    have hleft := hgrown.left
    have hsmall := allowance_antitone a.cipher hlarge
    show _ < allowance a.cipher (a.dx.bodyLen nss hdr data)
    omega

theorem AppStep.budget (h : AppStep nss s op result k) (hs : s.app.Epochs) (hassert : Asserted nss s op)
    (hb : Budget s.app sent) : Budget k (sent ++ s.seals nss op result) := by
  have hquiet : ∀ {k' : AppKeys Secret Aead HpKey}, k'.appWrite = s.appWrite → Budget k' (sent ++ []) := by
    intro k' hsame
    rw [List.append_nil]
    exact hb.frame hsame
  cases h with
  | other hseals _ => rw [hseals]; exact hquiet rfl
  | @encryptWrite version pn hdr data a ha =>
      obtain ⟨_, hlen, _⟩ := hassert (.applicationData, .appWrite) (by simp [CryptoStates.selectTxMut, ha])
        a.dx (by simp [CryptoStates.deref, ha])
      exact budget_encryptWrite hb ha hlen rfl
  | @encryptZeroRtt version pn hdr data z ha hz =>
      refine hb.encryptZeroRtt ha ha fun p hp => ?_
      cases hr : (z.encrypt nss pn hdr data).1 with
      | error err =>
          rw [hr, show (Except.error err : Except Error Bytes).map (fun _ => ()) = .error err from rfl,
            CryptoStates.seals_error] at hp
          cases hp
      | ok sealed =>
          rw [hr, show (Except.ok sealed : Except Error Bytes).map (fun _ => ()) = .ok () from rfl,
            CryptoStates.seals_zeroRtt ha hz] at hp
          obtain rfl := List.mem_singleton.mp hp
          exact hs.zeroRtt z hz
  | decryptRead _ _ => exact hquiet rfl
  | decryptNext _ _ => exact hquiet rfl
  | decryptZeroRtt _ _ => exact hquiet rfl
  | set0rtt _ => exact hquiet rfl
  | discard0rtt _ => exact hquiet rfl
  | setCipher => exact hquiet rfl
  | @installWrite _ _ app app' happ happ' =>
      obtain ⟨hfresh, hcipher, _, _, _, hdir, _, hinv⟩ := CryptoStates.installed_app happ happ'
      have hepoch := installed_epoch happ happ'
      unfold CryptoStates.newAppData at happ
      split at happ
      · cases happ
      · next cipher _ =>
        obtain ⟨hdx, hcipher', _⟩ := CryptoDxAppData.new_eq_ok happ
        obtain ⟨_, _, hdir', _, hinv', _⟩ := CryptoDxState.new_eq_ok hdx
        rw [show s.seals nss (.setApplicationWriteKey _ _) (.ok ()) = [] from rfl, List.append_nil]
        refine hb.installWrite hassert.1 rfl hepoch (hdir.trans hdir') (.fresh hfresh ?_)
        rw [hinv, hinv', hcipher, hcipher']
  | installRead _ _ _ => exact hquiet rfl
  | installReadFailed => exact hquiet rfl
  | updateWrite hseals _ hw _ _ hnext =>
      rw [hseals, List.append_nil]
      exact hb.update hw rfl hnext
  | receivedFirst hw _ _ hnext =>
      rw [show s.seals nss (.keyUpdateReceived _) (.ok ()) = [] from rfl, List.append_nil]
      exact hb.update hw rfl hnext
  | receivedSecond _ _ _ => exact hquiet rfl
  | expire0rtt _ _ => exact hquiet rfl
  | rotate _ _ _ _ => exact hquiet rfl
  | rotateFailed => exact hquiet rfl
  | overlap _ _ _ => exact hquiet rfl

theorem budget_run {e : Endpoint Secret Aead HpKey} {ops : List (Op Secret)}
    (hmeets : Transition.Meets (step nss) (fun e op => Asserted nss e.keys op) {} ops)
    (hrun : Transition.run (step nss) {} ops = some e) : Budget e.keys.app e.sent := by
  refine (Transition.invariant (fun e => e.keys.app.Epochs ∧ Budget e.keys.app e.sent)
    (fun e op next hinv hassert hstep => ?_) ⟨epochs_initial, ?_⟩ hmeets hrun).2
  · obtain ⟨result, hcall, hsent, _⟩ := step_eq_some hstep
    have happ := CryptoStates.call_appStep hcall
    refine ⟨happ.epochs hinv.1, ?_⟩
    rw [hsent]
    exact happ.budget hinv.1 hassert hinv.2
  · exact ⟨fun _ _ hp => (nomatch hp), fun _ h => (nomatch h), fun _ h => (nomatch h), fun _ h => (nomatch h)⟩

-- No 1-RTT write key protects more packets than its limit allows, nor, from
-- any packet on, more than the limit lowered for that packet's size.
theorem write_key_within_limit {e : Endpoint Secret Aead HpKey} {ops : List (Op Secret)}
    (hmeets : Transition.Meets (step nss) (fun e op => Asserted nss e.keys op) {} ops)
    (hrun : Transition.run (step nss) {} ops = some e) {a : CryptoDxAppData Secret Aead HpKey}
    (ha : e.keys.appWrite = some a) {pre post : List Sealed} {p : Sealed}
    (hsplit : e.sent = pre ++ p :: post) (hp : Epoch.applicationData.toNat ≤ p.epoch) :
    (ofEpoch p.epoch (p :: post)).length ≤ allowance a.cipher p.bodyLen := by
  have hspent := (budget_run hmeets hrun).spent a ha pre p post hsplit hp
  simp only [ofEpoch, decide_true, List.filter_cons_of_pos, List.length_cons]
  unfold ofEpoch at hspent
  omega

theorem write_key_within_limit_updated :
    ∃ e a, Transition.run (step Nss.adding) {} earlyThenUpdated = some e ∧ e.keys.appWrite = some a ∧
      (ofEpoch 3 [⟨3, 1, 2⟩, ⟨4, 2, 2⟩]).length ≤ allowance a.cipher 2 := by
  refine ⟨_, _, rfl, rfl, ?_⟩
  exact @write_key_within_limit _ _ _ Nss.adding _ earlyThenUpdated (by decide) rfl _ rfl [⟨1, 0, 2⟩] _
    ⟨3, 1, 2⟩ rfl (by decide)

end NeverFox.Quic
