import NeverFox.Native.Socks5

namespace NeverFox.Native

-- The replies as the two protocols lay them out.
namespace Rfc

-- A bound address behind its type.
inductive Bound : Bytes → Prop
  | ipv4 {addr : Bytes} (h : addr.length = 4) : Bound (1 :: addr)
  | ipv6 {addr : Bytes} (h : addr.length = 16) : Bound (4 :: addr)
  | domain {name : Bytes} (h : name.length < 256) : Bound (3 :: UInt8.ofNat name.length :: name)

-- One of the methods offered is selected, the user is let in if that is the
-- method, and the request succeeds.
def Granted (methods stream rest : Bytes) : Prop :=
  ∃ method ∈ methods, ∃ bound port, Bound bound ∧ port.length = 2 ∧
    stream = [5, method] ++ (if method = 2 then [1, 0] else []) ++ [5, 0, 0] ++ bound ++ port ++ rest

end Rfc

-- What the code lets pass, and what is then left: of a success reply it reads
-- the second octet, and of an address the length.
def passBytes (n : Nat) (data : Bytes) : Option Bytes :=
  if n ≤ data.length then some (data.drop n) else none

def passAddress (atyp : UInt8) (data : Bytes) : Option Bytes :=
  if atyp = 3 then
    match data with
    | alen :: data => passBytes (alen.toNat + 2) data
    | [] => none
  else passBytes ((if atyp = 1 then 4 else if atyp = 4 then 16 else 0) + 2) data

def passReply : Bytes → Option Bytes
  | _ :: 0 :: _ :: atyp :: data => passAddress atyp data
  | _ => none

-- The method selected, and what is left behind all replies.
def passReplies : Bytes → Option (UInt8 × Bytes)
  | 5 :: 0 :: data => (passReply data).map fun rest => (0, rest)
  | 5 :: 2 :: _ :: 0 :: data => (passReply data).map fun rest => (2, rest)
  | _ => none

-- No read of a fixed size is cut short.
def Uncut (method : UInt8) (cuts : Nat → Nat) : Prop :=
  2 ≤ cuts 0 ∧ if method = 2 then 2 ≤ cuts 1 ∧ 4 ≤ cuts 2 else 4 ≤ cuts 1

-- The host is not refused, the messages fit in the buffer, and the writes go through.
def Sendable (user pass host : CString) (port : Int) (method : UInt8) (accepts : Nat → Bool) : Prop :=
  host.strlen ≤ 255 ∧ (connectMessage 600 host port).isSome ∧ accepts 0 = true ∧
    if method = 2 then (authMessage 600 user pass).isSome ∧ accepts 1 = true ∧ accepts 2 = true
    else accepts 1 = true

-- What is left for the TLS handshake, where it is started.
def left (result : Except Failure Unit × Socket) : Option Bytes :=
  match result with
  | (.ok (), s) => some s.feed.data
  | (.error _, _) => none

@[simp] theorem left_error (failure : Failure) (s : Socket) : left (.error failure, s) = none := rfl

theorem recv_enough (s : Socket) {n : Nat} (h : n ≤ max 1 (s.feed.cuts 0)) :
    ∃ next, s.recv n = (s.feed.data.take n, next) ∧ next.feed.data = s.feed.data.drop n := by
  obtain ⟨hread, hrest⟩ := s.feed.read_enough h
  exact ⟨(s.recv n).2, Prod.ext hread rfl, hrest⟩

theorem left_discard (n : Nat) (s : Socket) : left (discard n s) = passBytes n s.feed.data := by
  have hdrain := Feed.drain_eq (by decide : 0 < 600) (Nat.le_refl n) s.feed
  unfold discard passBytes
  rw [← hdrain]
  cases Feed.drain 600 n n s.feed <;> rfl

theorem left_address (atyp : UInt8) (s : Socket) :
    left (andThen (boundLength atyp s) fun alen s => discard (alen + 2) s) =
      passAddress atyp s.feed.data := by
  unfold boundLength passAddress
  by_cases hdomain : atyp = 3
  · obtain ⟨next, hrecv, hrest⟩ := recv_enough s (Nat.le_max_left 1 (s.feed.cuts 0))
    rw [if_pos hdomain, if_pos hdomain, hrecv]
    cases hdata : s.feed.data with
    | nil => rfl
    | cons alen data =>
        have hnext : next.feed.data = data := by rw [hrest, hdata]; rfl
        rw [← hnext]
        exact left_discard _ next
  · rw [if_neg hdomain, if_neg hdomain, andThen_ok]
    exact left_discard _ s

-- A request that can be sent gets as far as its reply goes, if that is not cut.
theorem left_request {host : CString} {port : Int} (s : Socket) :
    left (andThen (requestConnect host port s) fun atyp s =>
        andThen (boundLength atyp s) fun alen s => discard (alen + 2) s) =
      if host.strlen ≤ 255 ∧ (connectMessage 600 host port).isSome ∧ s.accepts 0 = true ∧
        4 ≤ s.feed.cuts 0 then passReply s.feed.data else none := by
  unfold requestConnect
  by_cases hlong : 255 < host.strlen
  · rw [if_pos hlong, if_neg fun h => absurd h.1 (by omega)]
    rfl
  · rw [if_neg hlong, andThen_stored]
    cases hmessage : connectMessage 600 host port with
    | none => simp
    | some b =>
        dsimp only
        rw [andThen_ask]
        by_cases haccepts : s.accepts 0 = true
        · rw [if_pos haccepts]
          by_cases hcut : 4 ≤ s.feed.cuts 0
          · obtain ⟨hread, hrest⟩ := s.feed.read_enough (n := 4) (by omega)
            have hmessage' : (some b).isSome := rfl
            rw [if_pos ⟨by omega, hmessage', haccepts, hcut⟩, hread]
            rcases hdata : s.feed.data with _ | ⟨version, _ | ⟨reply, _ | ⟨rsv, _ | ⟨atyp, data⟩⟩⟩⟩
            · rfl
            · rfl
            · simp [passReply]
            · simp [passReply]
            · by_cases hreply : reply = 0
              · subst hreply
                have hnext : ((s.write b.bytes).2.recv 4).2.feed.data = data := by
                  rw [show ((s.write b.bytes).2.recv 4).2.feed.data = s.feed.data.drop 4 from hrest, hdata]
                  rfl
                rw [show passReply (version :: 0 :: rsv :: atyp :: data) = passAddress atyp data from rfl,
                  ← hnext, ← left_address]
                rfl
              · simp [passReply, hreply]
          · rw [if_neg fun h => hcut h.2.2.2]
            split
            · rename_i hread
              exact absurd hread (s.feed.read_ne_of_short (by omega) rfl)
            · rw [andThen_error]
              rfl
        · rw [if_neg haccepts, andThen_error, if_neg fun h => haccepts h.2.2.1]
          rfl

-- Behind the method: the user is let in, and the request is made.
def passGrant : Bytes → Option Bytes
  | _ :: 0 :: data => passReply data
  | _ => none

theorem left_authenticate {user pass host : CString} {port : Int} (s : Socket) :
    left (andThen (authenticate user pass s) fun _ s =>
        andThen (requestConnect host port s) fun atyp s =>
        andThen (boundLength atyp s) fun alen s => discard (alen + 2) s) =
      if (authMessage 600 user pass).isSome ∧ s.accepts 0 = true ∧ 2 ≤ s.feed.cuts 0 ∧
        host.strlen ≤ 255 ∧ (connectMessage 600 host port).isSome ∧ s.accepts 1 = true ∧
        4 ≤ s.feed.cuts 1 then passGrant s.feed.data else none := by
  unfold authenticate
  rw [andThen_stored]
  cases hmessage : authMessage 600 user pass with
  | none => simp
  | some b =>
      dsimp only
      rw [andThen_ask]
      by_cases haccepts : s.accepts 0 = true
      · rw [if_pos haccepts]
        by_cases hcut : 2 ≤ s.feed.cuts 0
        · obtain ⟨hread, hrest⟩ := s.feed.read_enough (n := 2) (by omega)
          rw [hread]
          simp only [Option.isSome_some, haccepts, hcut, true_and]
          rcases hdata : s.feed.data with _ | ⟨version, _ | ⟨status, data⟩⟩
          · simp [passGrant]
          · simp [passGrant]
          · by_cases hstatus : status = 0
            · subst hstatus
              have hnext : ((s.write b.bytes).2.recv 2).2.feed.data = data := by
                rw [show ((s.write b.bytes).2.recv 2).2.feed.data = s.feed.data.drop 2 from hrest, hdata]
                rfl
              rw [show passGrant (version :: 0 :: data) = passReply data from rfl, ← hnext]
              exact left_request _
            · simp [passGrant, hstatus]
        · rw [if_neg fun h => hcut h.2.2.1]
          split
          · rename_i hread
            exact absurd hread (s.feed.read_ne_of_short (by omega) rfl)
          · rw [andThen_error]
            rfl
      · rw [if_neg haccepts, andThen_error, if_neg fun h => haccepts h.2.1]
        rfl

theorem passReplies_user (data : Bytes) :
    passReplies (5 :: 2 :: data) = (passGrant data).map fun rest => (2, rest) := by
  rcases data with _ | ⟨version, _ | ⟨status, data⟩⟩
  · rfl
  · rfl
  · by_cases hstatus : status = 0
    · subst hstatus
      rfl
    · simp [passReplies, passGrant, hstatus]

theorem map_pair_eq {method found : UInt8} {reply : Option Bytes} {rest : Bytes} :
    reply.map (fun rest => (method, rest)) = some (found, rest) ↔ method = found ∧ reply = some rest := by
  cases reply with
  | none => simp
  | some rest' => simp

-- Where the connect gets to, and what it leaves, in terms of the stream alone.
theorem left_connectSocks5 (user pass host : CString) (port : Int) (feed : Feed UInt8)
    (accepts : Nat → Bool) (rest : Bytes) :
    left (connectSocks5 user pass host port ⟨feed, accepts, []⟩) = some rest ↔
      ∃ method, passReplies feed.data = some (method, rest) ∧ Uncut method feed.cuts ∧
        Sendable user pass host port method accepts := by
  have htwo : ¬(2 : UInt8) = 0 := by decide
  unfold connectSocks5 selectMethod
  rw [andThen_ask]
  by_cases haccepts : accepts 0 = true
  · rw [if_pos haccepts]
    by_cases hcut : 2 ≤ feed.cuts 0
    · obtain ⟨hread, hrest⟩ := feed.read_enough (n := 2) (by omega)
      rw [show (({ feed := feed, accepts := accepts } : Socket).feed.read 2).1 = feed.data.take 2 from hread]
      generalize hnext : ((({ feed := feed, accepts := accepts } : Socket).write (greeting user)).2.recv 2).2 =
        next
      have hcuts : ∀ i, next.feed.cuts i = feed.cuts (i + 1) := fun i => by rw [← hnext]; rfl
      have hwrites : ∀ i, next.accepts i = accepts (i + 1) := fun i => by rw [← hnext]; rfl
      have hdata : next.feed.data = feed.data.drop 2 := by rw [← hnext]; exact hrest
      rcases hfeed : feed.data with _ | ⟨version, _ | ⟨method, data⟩⟩ <;> rw [hfeed] at hdata
      · simp [passReplies]
      · simp [passReplies]
      · have hdata' : next.feed.data = data := hdata
        by_cases hversion : version = 5
        · subst hversion
          change left (andThen (Except.ok method, next) _) = _ ↔ _
          rw [andThen_ok]
          by_cases huser : method = 2
          · subst huser
            rw [if_pos rfl, left_authenticate, passReplies_user, Option.ite_none_right_eq_some]
            simp only [map_pair_eq, and_assoc, exists_eq_left', Uncut, Sendable, if_true, hcuts, hwrites,
              hdata', hcut, haccepts, true_and]
            tauto
          · rw [if_neg huser]
            by_cases hzero : method = 0
            · subst hzero
              rw [if_pos rfl, andThen_ok, left_request, Option.ite_none_right_eq_some]
              simp only [passReplies, map_pair_eq, and_assoc, exists_eq_left', Uncut, Sendable, huser, if_false,
                hcuts, hwrites, hdata', hcut, haccepts, true_and]
              tauto
            · rw [if_neg hzero]
              simp [passReplies, huser, hzero]
        · simp [passReplies, hversion]
    · have hno : ¬∃ method, passReplies feed.data = some (method, rest) ∧ Uncut method feed.cuts ∧
          Sendable user pass host port method accepts := fun ⟨_, _, huncut, _⟩ => hcut huncut.1
      simp only [hno, iff_false]
      split
      · rename_i hread
        exact absurd hread (feed.read_ne_of_short (by omega) rfl)
      · rw [andThen_error]
        simp
  · have hno : ¬∃ method, passReplies feed.data = some (method, rest) ∧ Uncut method feed.cuts ∧
        Sendable user pass host port method accepts := fun ⟨_, _, _, hsend⟩ => haccepts hsend.2.2.1
    rw [if_neg haccepts, andThen_error]
    simp only [hno, iff_false]
    simp

theorem passBytes_append {bytes rest : Bytes} {n : Nat} (h : bytes.length = n) :
    passBytes n (bytes ++ rest) = some rest := by
  rw [passBytes, if_pos (by rw [List.length_append]; omega), ← h, List.drop_left]

-- A success reply that is laid out well passes.
theorem passReply_of_bound {bound port rest : Bytes} (hbound : Rfc.Bound bound) (hport : port.length = 2) :
    passReply ([5, 0, 0] ++ bound ++ port ++ rest) = some rest := by
  cases hbound with
  | @ipv4 addr h =>
      have hlen : (addr ++ port).length = 4 + 2 := by rw [List.length_append, h, hport]
      rw [show [5, 0, 0] ++ (1 :: addr) ++ port ++ rest = 5 :: 0 :: 0 :: 1 :: (addr ++ port ++ rest) by simp]
      exact passBytes_append hlen
  | @ipv6 addr h =>
      have hlen : (addr ++ port).length = 16 + 2 := by rw [List.length_append, h, hport]
      rw [show [5, 0, 0] ++ (4 :: addr) ++ port ++ rest = 5 :: 0 :: 0 :: 4 :: (addr ++ port ++ rest) by simp]
      exact passBytes_append hlen
  | @domain name h =>
      have hlen : (name ++ port).length = (UInt8.ofNat name.length).toNat + 2 := by
        rw [List.length_append, hport, UInt8.toNat_ofNat']
        omega
      rw [show [5, 0, 0] ++ (3 :: UInt8.ofNat name.length :: name) ++ port ++ rest =
        5 :: 0 :: 0 :: 3 :: UInt8.ofNat name.length :: (name ++ port ++ rest) by simp]
      exact passBytes_append hlen

-- Replies that are laid out well pass, with the method that was offered.
theorem passReplies_of_granted {user : CString} {stream rest : Bytes}
    (h : Rfc.Granted (offered user) stream rest) : ∃ method, passReplies stream = some (method, rest) := by
  obtain ⟨method, hoffered, bound, port, hbound, hport, rfl⟩ := h
  have hreply : passReply ([5, 0, 0] ++ bound ++ port ++ rest) = some rest :=
    passReply_of_bound hbound hport
  have hmethod : method = 0 ∨ method = 2 := by
    unfold offered at hoffered
    split at hoffered
    · exact .inl (List.mem_singleton.mp hoffered)
    · simpa using hoffered
  refine ⟨method, ?_⟩
  rcases hmethod with rfl | rfl
  · change (passReply ([5, 0, 0] ++ bound ++ port ++ rest)).map _ = _
    rw [hreply]
    rfl
  · change (passReply ([5, 0, 0] ++ bound ++ port ++ rest)).map _ = _
    rw [hreply]
    rfl

theorem left_eq_some {result : Except Failure Unit × Socket} {rest : Bytes} :
    left result = some rest ↔ result.1 = .ok () ∧ result.2.feed.data = rest := by
  rcases result with ⟨_ | ⟨⟩, s⟩
  · simp
  · simp [left]

-- The handshake is started just if the replies grant it, on what they leave,
-- for exactly these streams and cuts: where the replies pass, they grant it
-- just if no read is cut short and the requests can be sent.
theorem socks5_replies_iff (user pass host : CString) (port : Int) (feed : Feed UInt8)
    (accepts : Nat → Bool) :
    (((connectSocks5 user pass host port ⟨feed, accepts, []⟩).1 = .ok () ↔
        ∃ rest, Rfc.Granted (offered user) feed.data rest) ∧
      ((connectSocks5 user pass host port ⟨feed, accepts, []⟩).1 = .ok () →
        Rfc.Granted (offered user) feed.data
          (connectSocks5 user pass host port ⟨feed, accepts, []⟩).2.feed.data)) ↔
    ∀ method rest, passReplies feed.data = some (method, rest) →
      (Rfc.Granted (offered user) feed.data rest ↔
        Uncut method feed.cuts ∧ Sendable user pass host port method accepts) := by
  have hleft := left_connectSocks5 user pass host port feed accepts
  simp only [left_eq_some] at hleft
  generalize connectSocks5 user pass host port ⟨feed, accepts, []⟩ = result at hleft ⊢
  constructor
  · rintro ⟨hreached, hleaves⟩ method rest hpass
    have hsame : ∀ found rest', passReplies feed.data = some (found, rest') →
        method = found ∧ rest = rest' := by
      intro found rest' hfound
      exact Prod.mk.inj (Option.some.inj (hpass.symm.trans hfound))
    constructor
    · intro hgranted
      obtain ⟨found, hfound, huncut, hsend⟩ := (hleft _).mp ⟨hreached.mpr ⟨rest, hgranted⟩, rfl⟩
      obtain ⟨rfl, _⟩ := hsame found _ hfound
      exact ⟨huncut, hsend⟩
    · rintro ⟨huncut, hsend⟩
      obtain ⟨hok, hrest⟩ := (hleft rest).mpr ⟨method, hpass, huncut, hsend⟩
      exact hrest ▸ hleaves hok
  · intro hall
    refine ⟨⟨fun hok => ?_, fun ⟨rest, hgranted⟩ => ?_⟩, fun hok => ?_⟩
    · obtain ⟨method, hpass, huncut, hsend⟩ := (hleft _).mp ⟨hok, rfl⟩
      exact ⟨_, (hall method _ hpass).mpr ⟨huncut, hsend⟩⟩
    · obtain ⟨method, hpass⟩ := passReplies_of_granted hgranted
      obtain ⟨huncut, hsend⟩ := (hall method rest hpass).mp hgranted
      exact ((hleft rest).mpr ⟨method, hpass, huncut, hsend⟩).1
    · obtain ⟨method, hpass, huncut, hsend⟩ := (hleft _).mp ⟨hok, rfl⟩
      exact (hall method _ hpass).mpr ⟨huncut, hsend⟩

-- A proxy that grants the request, read in whole replies and octet by octet.
theorem short_read_refuses_grant :
    Rfc.Granted [0] [5, 0, 5, 0, 0, 1, 127, 0, 0, 1, 0, 80] [] ∧
    (connectSocks5 ⟨[], by decide⟩ ⟨[], by decide⟩ ⟨[97], by decide⟩ 443
      ⟨⟨[5, 0, 5, 0, 0, 1, 127, 0, 0, 1, 0, 80], fun _ => 9⟩, fun _ => true, []⟩).1 = .ok () ∧
    (connectSocks5 ⟨[], by decide⟩ ⟨[], by decide⟩ ⟨[97], by decide⟩ 443
      ⟨⟨[5, 0, 5, 0, 0, 1, 127, 0, 0, 1, 0, 80], fun _ => 1⟩, fun _ => true, []⟩).1 = .error .refused :=
  ⟨⟨0, by decide, [1, 127, 0, 0, 1], [0, 80], .ipv4 rfl, rfl, rfl⟩, rfl, rfl⟩

end NeverFox.Native
