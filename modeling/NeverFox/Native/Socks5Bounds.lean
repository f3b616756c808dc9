import NeverFox.Native.Socks5

namespace NeverFox.Native

variable {α β : Type}

theorem strlen_small {s : CString} (h : s.bytes.length < 256) : s.strlen = s.bytes.length :=
  toInt_small (by omega)

theorem take_strlen {s : CString} (h : s.bytes.length < 256) : s.bytes.take s.strlen.toNat = s.bytes := by
  rw [strlen_small h, Int.toNat_natCast, List.take_length]

theorem uchar_strlen {s : CString} (h : s.bytes.length < 256) :
    uchar s.strlen = UInt8.ofNat s.bytes.length := by
  rw [strlen_small h, uchar]
  congr 1
  omega

-- What RFC 1929 takes for a user or a password.
def Credential (s : CString) : Prop := 0 < s.bytes.length ∧ s.bytes.length < 256

theorem field_eq {s : CString} (h : Credential s) :
    Rfc.field s.bytes = some (UInt8.ofNat s.bytes.length :: s.bytes) := by
  rw [Rfc.field, if_neg (List.ne_nil_of_length_pos h.1), Rfc.counted, if_pos h.2]

-- Strings that one octet can count are encoded as the protocols lay them out.
theorem userPass_eq {user pass : CString} (hu : Credential user) (hp : Credential pass) :
    Rfc.userPass user.bytes pass.bytes = some (authBytes user pass) := by
  simp [Rfc.userPass, field_eq hu, field_eq hp, authBytes, uchar_strlen hu.2, uchar_strlen hp.2,
    take_strlen hu.2, take_strlen hp.2]

theorem connect_eq {host : CString} {port : Int} (hh : host.bytes.length < 256)
    (hport : 0 ≤ port ∧ port < 65536) : Rfc.connect host.bytes port = some (connectBytes host port) := by
  have hhigh : uchar (port / 256) = UInt8.ofNat (port.toNat / 256) := by
    unfold uchar
    congr 1
    omega
  have hlow : uchar port = UInt8.ofNat (port.toNat % 256) := by
    unfold uchar
    congr 1
    omega
  rw [Rfc.connect, if_pos hport, Rfc.counted, if_pos hh, connectBytes, hhigh, hlow, uchar_strlen hh,
    take_strlen hh]
  rfl

theorem authBytes_head (user pass : CString) : (authBytes user pass).head? = some 1 := rfl

theorem connectBytes_head (host : CString) (port : Int) : (connectBytes host port).head? = some 5 := rfl

theorem connectBytes_length (host : CString) (port : Int) : 7 ≤ (connectBytes host port).length := by
  simp only [connectBytes, List.length_append, List.length_cons, List.length_nil]
  omega

-- A message that one of the two protocols has for these arguments.
def Conforms (user pass host : CString) (port : Int) (message : Bytes) : Prop :=
  Rfc.methods (offered user) = some message ∨ Rfc.userPass user.bytes pass.bytes = some message ∨
    Rfc.connect host.bytes port = some message

theorem field_some {s : CString} {counted : Bytes} (h : Rfc.field s.bytes = some counted) : Credential s := by
  unfold Rfc.field Rfc.counted at h
  split at h
  · cases h
  · rename_i hne
    split at h
    · exact ⟨List.length_pos_of_ne_nil hne, by assumption⟩
    · cases h

theorem userPass_some {user pass : CString} {message : Bytes}
    (h : Rfc.userPass user.bytes pass.bytes = some message) :
    Credential user ∧ Credential pass ∧ message.head? = some 1 := by
  obtain ⟨u, hu, h⟩ := Option.bind_eq_some_iff.mp h
  obtain ⟨p, hp, h⟩ := Option.bind_eq_some_iff.mp h
  obtain rfl := Option.some.inj h
  exact ⟨field_some hu, field_some hp, rfl⟩

theorem connect_some {host message : Bytes} {port : Int} (h : Rfc.connect host port = some message) :
    host.length < 256 ∧ (0 ≤ port ∧ port < 65536) ∧ message.head? = some 5 := by
  simp only [Rfc.connect, Rfc.counted] at h
  split at h
  · split at h
    · simp only [Option.map_some, Option.some.injEq] at h
      exact ⟨by assumption, by assumption, by rw [← h]; rfl⟩
    · simp at h
  · simp at h

section

variable {user pass host : CString} {port : Int}

theorem methods_eq (user : CString) : Rfc.methods (offered user) = some (greeting user) := by
  unfold offered greeting
  split <;> rfl

theorem greeting_head (user : CString) : (greeting user).head? = some 5 := by
  unfold greeting
  split <;> rfl

theorem greeting_length (user : CString) : (greeting user).length ≤ 4 := by
  unfold greeting
  split <;> decide

theorem conforms_greeting : Conforms user pass host port (greeting user) := .inl (methods_eq user)

theorem conforms_auth : Conforms user pass host port (authBytes user pass) ↔
    Credential user ∧ Credential pass := by
  constructor
  · rintro (h | h | h)
    · rw [methods_eq] at h
      have hhead := congrArg List.head? (Option.some.inj h)
      rw [authBytes_head, greeting_head] at hhead
      cases hhead
    · exact ⟨(userPass_some h).1, (userPass_some h).2.1⟩
    · have hhead := (connect_some h).2.2
      rw [authBytes_head] at hhead
      cases hhead
  · rintro ⟨hu, hp⟩
    exact .inr (.inl (userPass_eq hu hp))

theorem conforms_connect : Conforms user pass host port (connectBytes host port) ↔
    host.bytes.length < 256 ∧ 0 ≤ port ∧ port < 65536 := by
  constructor
  · rintro (h | h | h)
    · rw [methods_eq] at h
      have hlen := congrArg List.length (Option.some.inj h)
      have hlong := connectBytes_length host port
      have hshort := greeting_length user
      omega
    · have hhead := (userPass_some h).2.2
      rw [connectBytes_head] at hhead
      cases hhead
    · exact ⟨(connect_some h).1, (connect_some h).2.1⟩
  · rintro ⟨hh, hport⟩
    exact .inr (.inr (connect_eq hh hport))

-- The buffer has room for the strings that one octet can count.
theorem authMessage_fits (hu : user.bytes.length < 256) (hp : pass.bytes.length < 256) :
    ∃ b : Buffer 600, authMessage 600 user pass = some b ∧ b.bytes = authBytes user pass := by
  have hlen : (authBytes user pass).length ≤ 600 := by
    simp only [authBytes, take_strlen hu, take_strlen hp, List.length_append, List.length_cons,
      List.length_nil]
    omega
  refine ⟨⟨authBytes user pass, hlen⟩, (authMessage_eq_some user pass _).mpr ⟨?_, ?_, hlen, rfl⟩, rfl⟩
  · rw [strlen_small hu]
    omega
  · rw [strlen_small hp]
    omega

theorem connectMessage_fits (port : Int) (hh : host.bytes.length < 256) :
    ∃ b : Buffer 600, connectMessage 600 host port = some b ∧ b.bytes = connectBytes host port := by
  have hlen : (connectBytes host port).length ≤ 600 := by
    simp only [connectBytes, take_strlen hh, List.length_append, List.length_cons, List.length_nil]
    omega
  refine ⟨⟨connectBytes host port, hlen⟩, (connectMessage_eq_some host port _).mpr ⟨?_, hlen, rfl⟩, rfl⟩
  rw [strlen_small hh]
  omega

-- A stage that stores within the buffer, behind writes that all conform.
def Sound (user pass host : CString) (port : Int) (r : Except Failure α × Socket) : Prop :=
  r.1 ≠ .error .overrun ∧ ∀ m ∈ r.2.sent, Conforms user pass host port m

theorem sound_quiet {r : Except Failure α × Socket} {s : Socket} (hr : r.1 ≠ .error .overrun)
    (hsent : r.2.sent = s.sent) :
    Sound user pass host port r ↔ ∀ m ∈ s.sent, Conforms user pass host port m := by
  rw [Sound, hsent, and_iff_right hr]

theorem sound_push {s : Socket} {message : Bytes} :
    (∀ m ∈ s.sent ++ [message], Conforms user pass host port m) ↔
      (∀ m ∈ s.sent, Conforms user pass host port m) ∧ Conforms user pass host port message := by
  simp [or_imp, forall_and]

-- Nothing is written behind the request.
theorem boundLength_quiet (atyp : UInt8) (s : Socket) :
    (boundLength atyp s).1 ≠ .error .overrun ∧ (boundLength atyp s).2.sent = s.sent := by
  unfold boundLength
  split
  · split
    · rename_i hread
      exact ⟨by simp, by rw [← (Prod.mk.inj hread).2]⟩
    · rename_i hread
      exact ⟨by simp, by rw [← (Prod.mk.inj hread).2]⟩
  · exact ⟨by simp, rfl⟩

theorem discard_quiet (rem : Nat) (s : Socket) :
    (discard rem s).1 ≠ .error .overrun ∧ (discard rem s).2.sent = s.sent := by
  unfold discard
  split
  · exact ⟨by simp, rfl⟩
  · exact ⟨by simp, rfl⟩

theorem sound_reply (atyp : UInt8) (s : Socket) :
    Sound user pass host port (andThen (boundLength atyp s) fun alen s => discard (alen + 2) s) ↔
      ∀ m ∈ s.sent, Conforms user pass host port m := by
  obtain ⟨hne, hsent⟩ := boundLength_quiet atyp s
  rcases hbound : boundLength atyp s with ⟨_ | alen, next⟩ <;> rw [hbound] at hne hsent
  · exact sound_quiet (fun he => hne (congrArg Except.error (Except.error.inj he))) hsent
  · obtain ⟨hne', hsent'⟩ := discard_quiet (alen + 2) next
    rw [andThen_ok]
    exact sound_quiet hne' (hsent'.trans hsent)

theorem sound_refused {s : Socket} {message : Bytes} :
    Sound user pass host port ((.error .refused, (s.write message).2) : Except Failure α × Socket) ↔
      (∀ m ∈ s.sent, Conforms user pass host port m) ∧ Conforms user pass host port message := by
  rw [← sound_push]
  exact sound_quiet (by simp) rfl

theorem sound_request (s : Socket) :
    Sound user pass host port (andThen (requestConnect host port s) fun atyp s =>
        andThen (boundLength atyp s) fun alen s => discard (alen + 2) s) ↔
      (∀ m ∈ s.sent, Conforms user pass host port m) ∧
        (255 < host.strlen ∨ (host.bytes.length < 256 ∧ 0 ≤ port ∧ port < 65536)) := by
  unfold requestConnect
  by_cases hlong : 255 < host.strlen
  · rw [if_pos hlong]
    simp [Sound, hlong]
  · rw [if_neg hlong, andThen_stored]
    simp only [hlong, false_or]
    cases hmessage : connectMessage 600 host port with
    | none =>
        have hnot : ¬(host.bytes.length < 256 ∧ 0 ≤ port ∧ port < 65536) := by
          rintro ⟨hh, _⟩
          obtain ⟨b, hb, _⟩ := connectMessage_fits port hh
          rw [hmessage] at hb
          cases hb
        simp [Sound, hnot]
    | some b =>
        have hb := ((connectMessage_eq_some host port b).mp hmessage).2.2
        dsimp only
        rw [hb, andThen_ask, ← conforms_connect]
        split
        · split
          · rw [andThen_ok, sound_reply]
            exact sound_push
          · rw [andThen_error, ← sound_push]
            exact sound_quiet (by simp) rfl
        · rw [andThen_error]
          exact sound_refused

theorem sound_authenticate (s : Socket) :
    Sound user pass host port (andThen (authenticate user pass s) fun _ s =>
        andThen (requestConnect host port s) fun atyp s =>
        andThen (boundLength atyp s) fun alen s => discard (alen + 2) s) ↔
      (∀ m ∈ s.sent, Conforms user pass host port m) ∧
        (Credential user ∧ Credential pass) ∧
        (s.accepts 0 = true ∧ (∃ v, (s.feed.read 2).1 = [v, 0]) →
          255 < host.strlen ∨ (host.bytes.length < 256 ∧ 0 ≤ port ∧ port < 65536)) := by
  unfold authenticate
  rw [andThen_stored]
  cases hmessage : authMessage 600 user pass with
  | none =>
      have hnot : ¬(Credential user ∧ Credential pass) := by
        rintro ⟨hu, hp⟩
        obtain ⟨b, hb, _⟩ := authMessage_fits hu.2 hp.2
        rw [hmessage] at hb
        cases hb
      simp [Sound, hnot]
  | some b =>
      have hb := ((authMessage_eq_some user pass b).mp hmessage).2.2.2
      dsimp only
      rw [hb, andThen_ask, ← conforms_auth, ← and_assoc, ← sound_push]
      split
      · rename_i haccepts
        split
        · rename_i v hread
          rw [andThen_ok, sound_request]
          simp only [haccepts, hread, List.cons.injEq, and_true, exists_eq', true_implies]
          rfl
        · rename_i hnot
          have hout : ¬∃ v, (s.feed.read 2).1 = [v, 0] := fun ⟨v, hv⟩ => hnot v hv
          rw [andThen_error, and_iff_left fun h => absurd h.2 hout]
          exact sound_quiet (by simp) rfl
      · rename_i hrefused
        rw [andThen_error, sound_refused, ← sound_push]
        exact (and_iff_left fun h => absurd h.1 hrefused).symm

-- The proxy takes the greeting and selects a method.
def Selects (feed : Feed UInt8) (accepts : Nat → Bool) (method : UInt8) : Prop :=
  accepts 0 = true ∧ (feed.read 2).1 = [5, method]

-- It then takes the user and the password, and grants them.
def LetsIn (feed : Feed UInt8) (accepts : Nat → Bool) : Prop :=
  accepts 1 = true ∧ ∃ v, ((feed.read 2).2.read 2).1 = [v, 0]

end

-- All that is stored is stored within the buffer, and all that is written is the
-- encoding of what it stands for, just if the user and the password have 1 to 255
-- octets each whenever the proxy wants them, and the host is short, or seen to be
-- long, and the port one of 16 bits whenever a CONNECT is due.
theorem socks5_requests_iff (user pass host : CString) (port : Int) (feed : Feed UInt8)
    (accepts : Nat → Bool) :
    ((connectSocks5 user pass host port ⟨feed, accepts, []⟩).1 ≠ .error .overrun ∧
      ∀ m ∈ (connectSocks5 user pass host port ⟨feed, accepts, []⟩).2.sent,
        Conforms user pass host port m) ↔
    (Selects feed accepts 2 → Credential user ∧ Credential pass) ∧
      (Selects feed accepts 0 ∨ (Selects feed accepts 2 ∧ LetsIn feed accepts) →
        255 < host.strlen ∨ (host.bytes.length < 256 ∧ 0 ≤ port ∧ port < 65536)) := by
  have hgreeting : ∀ m ∈ [greeting user], Conforms user pass host port m := by
    simpa using conforms_greeting
  change Sound user pass host port _ ↔ _
  unfold connectSocks5 selectMethod
  rw [andThen_ask]
  split
  · rename_i haccepts
    have hselects : ∀ method, Selects feed accepts method ↔ (feed.read 2).1 = [5, method] :=
      fun method => and_iff_right haccepts
    split
    · rename_i method hread
      have hmethod : ∀ m, Selects feed accepts m ↔ method = m := by
        intro m
        rw [hselects, show (feed.read 2).1 = [5, method] from hread]
        simp
      rw [andThen_ok]
      simp only [hmethod]
      by_cases htwo : method = 2
      · subst htwo
        rw [if_pos rfl, sound_authenticate]
        simp only [show ¬(2 : UInt8) = 0 by decide, false_or, true_and, true_implies]
        exact and_iff_right hgreeting
      · rw [if_neg htwo]
        simp only [htwo, false_and, or_false, false_implies, true_and]
        by_cases hzero : method = 0
        · rw [if_pos hzero, andThen_ok, sound_request]
          simp only [hzero, true_implies]
          exact and_iff_right hgreeting
        · rw [if_neg hzero, andThen_error]
          simp only [hzero, false_implies, iff_true]
          exact ⟨by simp, hgreeting⟩
    · rename_i hnot
      have hnone : ∀ method, ¬Selects feed accepts method :=
        fun method hm => hnot method ((hselects method).mp hm)
      rw [andThen_error]
      simp only [hnone, false_and, or_self, false_implies, and_self, iff_true]
      exact ⟨by simp, hgreeting⟩
  · rename_i hrefused
    have hnone : ∀ method, ¬Selects feed accepts method := fun method hm => hrefused hm.1
    rw [andThen_error]
    simp only [hnone, false_and, or_self, false_implies, and_self, iff_true]
    exact ⟨by simp, hgreeting⟩

def letters (n : Nat) : CString := ⟨List.replicate n 97, by simp [List.mem_replicate]⟩

-- With a user of 300 octets the length octet is 44, and with one of 600 the
-- buffer is overrun.
theorem long_user_not_encoded :
    (∃ m ∈ (connectSocks5 (letters 300) (letters 3) (letters 4) 443
        ⟨⟨[5, 2], fun _ => 2⟩, fun _ => true, []⟩).2.sent,
      m.take 2 = [1, 44] ∧ ¬Conforms (letters 300) (letters 3) (letters 4) 443 m) ∧
    (connectSocks5 (letters 600) (letters 3) (letters 4) 443
      ⟨⟨[5, 2], fun _ => 2⟩, fun _ => true, []⟩).1 = .error .overrun := by
  have hnot : ¬Conforms (letters 300) (letters 3) (letters 4) 443 (authBytes (letters 300) (letters 3)) := by
    rw [conforms_auth]
    rintro ⟨⟨_, hshort⟩, _⟩
    have hlength : (letters 300).bytes.length = 300 := List.length_replicate
    omega
  exact ⟨⟨authBytes (letters 300) (letters 3), by decide +kernel, by decide +kernel, hnot⟩, by decide +kernel⟩

end NeverFox.Native
