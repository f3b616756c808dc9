import NeverFox.Native.ConnectProxy
import NeverFox.Native.Socks5Replies

namespace NeverFox.Native

-- The response as HTTP lays it out.
namespace Rfc

-- A header block is what the first empty line ends.
structure Block (stream : Bytes) (p : Nat) : Prop where
  within : p ≤ stream.length
  ended : crlf2 <:+ stream.take p
  first : ∀ r < p, ¬crlf2 <:+ stream.take r

def Digit (b : UInt8) : Prop := 48 ≤ b ∧ b ≤ 57

-- A status line whose code is of the class 2xx, with a reason or without.
def Successful (header : Bytes) : Prop :=
  ∃ major minor tens ones rest, Digit major ∧ Digit minor ∧ Digit tens ∧ Digit ones ∧
    (rest.head? = some 32 ∨ rest.head? = some 13) ∧
    header = ascii "HTTP/" ++ [major, 46, minor, 32, 50, tens, ones] ++ rest

def Connected (stream : Bytes) (p : Nat) : Prop := Block stream p ∧ Successful (stream.take p)

theorem Block.unique {stream : Bytes} {p p' : Nat} (h : Block stream p) (h' : Block stream p') : p = p' := by
  rcases Nat.lt_trichotomy p p' with hlt | heq | hlt
  · exact absurd h.ended (h'.first p hlt)
  · exact heq
  · exact absurd h'.ended (h.first p' hlt)

end Rfc

theorem cText_begins (got : Bytes) : cText got <+: got := List.takeWhile_prefix _

theorem cText_eq_self {got : Bytes} : cText got = got ↔ 0 ∉ got := by
  rw [cText, List.takeWhile_eq_self_iff]
  simp only [decide_eq_true_eq]
  exact ⟨fun h hmem => h 0 hmem rfl, fun h x hx heq => h (heq ▸ hx)⟩

-- The end of the block is seen in no less than the block, and not behind a NUL.
theorem terminated_take {stream : Bytes} {p r : Nat} (h : Rfc.Block stream p) (hr : r ≤ p) :
    terminated (stream.take r) = true ↔ r = p ∧ 0 ∉ stream.take p := by
  have hwithin := h.within
  unfold terminated
  rw [decide_eq_true_eq, List.infix_iff_suffix_prefix]
  constructor
  · rintro ⟨text, hsuffix, hbegins⟩
    have hlen : (cText (stream.take r)).length ≤ (stream.take r).length :=
      (cText_begins (stream.take r)).length_le
    have hstream : text <+: stream := (hbegins.trans (cText_begins _)).trans (List.take_prefix r stream)
    have hsize : text.length ≤ (cText (stream.take r)).length := hbegins.length_le
    rw [List.length_take] at hlen
    have hp : p ≤ text.length := by
      apply Nat.le_of_not_lt
      intro hlt
      apply h.first text.length hlt
      rw [← List.prefix_iff_eq_take.mp hstream]
      exact hsuffix
    have heq : r = p := by omega
    subst heq
    refine ⟨rfl, cText_eq_self.mp ((cText_begins _).eq_of_length_le ?_)⟩
    rw [List.length_take]
    omega
  · rintro ⟨rfl, hnul⟩
    rw [cText_eq_self.mpr hnul]
    exact ⟨stream.take r, h.ended, List.prefix_refl _⟩

theorem Rfc.Digit.ne {b : UInt8} (h : Rfc.Digit b) : b ≠ 0 ∧ b ≠ 32 := by
  constructor
  · rintro rfl
    exact absurd h.1 (by decide)
  · rintro rfl
    exact absurd h.1 (by decide)

theorem accepted_of_successful {header : Bytes} (h : Rfc.Successful header) : accepted header = true := by
  obtain ⟨major, minor, tens, ones, rest, hmajor, hminor, _, _, _, rfl⟩ := h
  have hmajor := hmajor.ne
  have hminor := hminor.ne
  rw [accepted, cText, show ascii "HTTP/" = [72, 84, 84, 80, 47] from rfl]
  simp [hmajor, hminor]

-- A PR_Write that fails passes as well if it is for a length of -1.
def Written (host : CString) (port : Int) (auth : CString) (accepts : Nat → Bool) : Prop :=
  accepts 0 = true ∨ 2147483647 < requestLength host port auth

theorem sendRequest_written (stack : Nat → UInt8) (host : CString) (port : Int) (auth : CString)
    (s : Socket) :
    (sendRequest stack host port auth s).1 = true ↔ Written host port auth s.accepts := by
  rw [Written, ← requestText_length, sendRequest, snprintf]
  by_cases hint : (requestText host port auth).length ≤ 2147483647
  · simp only [if_pos hint, Bool.or_eq_true, decide_eq_true_eq]
    have hn : ¬((requestText host port auth).length : Int) = -1 := by omega
    have hnot : ¬2147483647 < (requestText host port auth).length := by omega
    simp only [hn, hnot, or_false]
    rfl
  · simp only [if_neg hint, Bool.or_eq_true, decide_eq_true_eq]
    have hlong : 2147483647 < (requestText host port auth).length := by omega
    simp only [hlong, or_true]

-- Where the connect gets to, and what it leaves, in terms of the stream alone.
theorem left_connectProxy (stack : Nat → UInt8) (host : CString) (port : Int) (auth : CString)
    (feed : Feed UInt8) (accepts : Nat → Bool) (rest : Bytes) :
    left (connectProxy stack host port auth ⟨feed, accepts, []⟩) = some rest ↔
      Written host port auth accepts ∧ ∃ q, feed.StopsAt terminated 2047 0 feed.data q ∧
        accepted (feed.data.take q) = true ∧ rest = feed.data.drop q := by
  have hwritten := sendRequest_written stack host port auth ⟨feed, accepts, []⟩
  have hgather :=
    @Feed.gather_spec UInt8 feed terminated 2047 0 feed.data 2047 [] (by omega) (by omega) rfl rfl
  unfold connectProxy
  split
  · rename_i next hsend
    rw [hsend] at hwritten
    have hnot : ¬Written host port auth accepts := fun h => by cases hwritten.mpr h
    simp only [hnot, false_and, left_error, reduceCtorEq]
  · rename_i next hsend
    have hfeed : next.feed = feed := by rw [← (Prod.mk.inj hsend).2]
    rw [hsend] at hwritten
    have hpassed : Written host port auth accepts := hwritten.mp rfl
    simp only [hpassed, true_and, hfeed]
    split
    · rename_i hnone
      rw [hnone] at hgather
      constructor
      · intro h
        cases h
      · rintro ⟨q, hstops, _⟩
        exact absurd hstops (hgather q)
    · rename_i buf after hsome
      rw [hsome] at hgather
      obtain ⟨q, hstops, hbuf, hafter⟩ := hgather
      have hq : ∀ q', feed.StopsAt terminated 2047 0 feed.data q' → q' = q := fun q' h => h.unique hstops
      subst hbuf
      split
      · rename_i haccepted
        simp only [left, Option.some.injEq, hafter]
        constructor
        · rintro rfl
          exact ⟨q, hstops, haccepted, rfl⟩
        · rintro ⟨q', hstops', _, rfl⟩
          rw [hq q' hstops']
      · rename_i hrefused
        constructor
        · intro h
          cases h
        · rintro ⟨q', hstops', haccepted, _⟩
          rw [hq q' hstops'] at haccepted
          exact absurd haccepted hrefused

theorem stopsAt_block {feed : Feed UInt8} {p : Nat} (h : Rfc.Block feed.data p) :
    feed.StopsAt terminated 2047 0 feed.data p ↔
      feed.EndsAt 2047 0 p ∧ (p < 2047 → 0 ∉ feed.data.take p) := by
  constructor
  · rintro ⟨hends, hstops, _⟩
    refine ⟨hends, fun hlt => ?_⟩
    rcases hstops with hstop | hfull
    · exact ((terminated_take h (Nat.le_refl p)).mp hstop).2
    · omega
  · rintro ⟨hends, hnul⟩
    have hbounds := hends.bounds
    refine ⟨hends, ?_, fun r hr _ => ?_⟩
    · by_cases hlt : p < 2047
      · exact .inl ((terminated_take h (Nat.le_refl p)).mpr ⟨rfl, hnul hlt⟩)
      · exact .inr (by omega)
    · rw [Bool.eq_false_iff]
      intro hstop
      have heq := ((terminated_take h (by omega)).mp hstop).1
      omega

-- The block's end is the only place at which the handshake could start on
-- what follows the block.
theorem left_eq_drop {feed : Feed UInt8} {p q : Nat} (hp : Rfc.Block feed.data p) (hq : feed.EndsAt 2047 0 q)
    (hdrop : feed.data.drop p = feed.data.drop q) : q = p := by
  have hlen := congrArg List.length hdrop
  have hle := hq.le_data
  have hwithin := hp.within
  rw [List.length_drop, List.length_drop] at hlen
  omega

-- The handshake is started just if the stream begins with a successful
-- response, and behind it, for exactly these streams and cuts: where it does,
-- a read ends with the block, and the buffer holds all of it and no NUL; where
-- it does not, what the code stops at has no ' ' with a '2' behind it.
theorem connect_response_iff (stack : Nat → UInt8) (host : CString) (port : Int) (auth : CString)
    (feed : Feed UInt8) (accepts : Nat → Bool) :
    let result := connectProxy stack host port auth ⟨feed, accepts, []⟩
    ((result.1 = .ok () ↔ ∃ p, Rfc.Connected feed.data p) ∧
      (result.1 = .ok () → ∃ p, Rfc.Connected feed.data p ∧ result.2.feed.data = feed.data.drop p)) ↔
    (∀ p, Rfc.Connected feed.data p →
        Written host port auth accepts ∧ feed.EndsAt 2047 0 p ∧ (p < 2047 → 0 ∉ feed.data.take p)) ∧
      ((∀ p, ¬Rfc.Connected feed.data p) → Written host port auth accepts →
        ∀ q, feed.StopsAt terminated 2047 0 feed.data q → accepted (feed.data.take q) = false) := by
  intro result
  have hleft := left_connectProxy stack host port auth feed accepts
  simp only [left_eq_some] at hleft
  constructor
  · rintro ⟨hreached, hleaves⟩
    refine ⟨fun p hp => ?_, fun hnone hwritten q hstops => ?_⟩
    · have hok : result.1 = .ok () := hreached.mpr ⟨p, hp⟩
      obtain ⟨hwritten, q, hstops, _, hrest⟩ := (hleft _).mp ⟨hok, rfl⟩
      obtain ⟨p', hp', hrest'⟩ := hleaves hok
      obtain rfl : p = p' := hp.1.unique hp'.1
      obtain rfl : q = p := left_eq_drop hp.1 hstops.ends (hrest'.symm.trans hrest)
      exact ⟨hwritten, (stopsAt_block hp.1).mp hstops⟩
    · rw [Bool.eq_false_iff]
      intro haccepted
      have hok : result.1 = .ok () := ((hleft _).mpr ⟨hwritten, q, hstops, haccepted, rfl⟩).1
      obtain ⟨p, hp⟩ := hreached.mp hok
      exact hnone p hp
  · rintro ⟨hsuccess, hfailure⟩
    have hstart : ∀ p, Rfc.Connected feed.data p →
        result.1 = .ok () ∧ result.2.feed.data = feed.data.drop p := by
      intro p hp
      obtain ⟨hwritten, hends, hnul⟩ := hsuccess p hp
      have hstops := (stopsAt_block hp.1).mpr ⟨hends, hnul⟩
      exact (hleft _).mpr ⟨hwritten, p, hstops, accepted_of_successful hp.2, rfl⟩
    have hconnected : result.1 = .ok () → ∃ p, Rfc.Connected feed.data p := by
      intro hok
      obtain ⟨hwritten, q, hstops, haccepted, _⟩ := (hleft _).mp ⟨hok, rfl⟩
      apply by_contradiction
      intro hnone
      have hrefused := hfailure (fun p hp => hnone ⟨p, hp⟩) hwritten q hstops
      rw [haccepted] at hrefused
      cases hrefused
    refine ⟨⟨hconnected, fun ⟨p, hp⟩ => (hstart p hp).1⟩, fun hok => ?_⟩
    obtain ⟨p, hp⟩ := hconnected hok
    exact ⟨p, hp, (hstart p hp).2⟩

-- A response that never ends, of which the buffer holds the beginning.
def endlessResponse : Bytes := ascii "HTTP/1.1 200 OK\r\nX: " ++ List.replicate 2100 97

theorem endlessResponse_length : endlessResponse.length = 2120 := by
  rw [endlessResponse, List.length_append, List.length_replicate]
  rfl

theorem endlessResponse_not_ended : ¬crlf2 <:+: endlessResponse := by
  intro hinfix
  have hcount := hinfix.sublist.count_le 13
  rw [endlessResponse, List.count_append, List.count_replicate] at hcount
  exact absurd hcount (by decide)

theorem full_buffer_accepted :
    (connectProxy (fun _ => 0) (.ofBytes [97]) 443 (.ofBytes [])
      ⟨⟨endlessResponse, fun _ => 4096⟩, fun _ => true, []⟩).1 = .ok () ∧
    ¬∃ p, Rfc.Connected endlessResponse p := by
  constructor
  · have hsize : (⟨endlessResponse, fun _ => 4096⟩ : Feed UInt8).size 2047 = 2047 := by
      rw [Feed.size, endlessResponse_length]
      rfl
    have haccepted : accepted (endlessResponse.take 2047) = true := rfl
    have hleft := (left_connectProxy (fun _ => 0) (.ofBytes [97]) 443 (.ofBytes [])
      ⟨endlessResponse, fun _ => 4096⟩ (fun _ => true) (endlessResponse.drop 2047)).mpr
      ⟨.inl rfl, 2047, Feed.stopsAt_full (by decide) hsize, haccepted, rfl⟩
    exact (left_eq_some.mp hleft).1
  · rintro ⟨p, hblock, _⟩
    exact endlessResponse_not_ended (hblock.ended.isInfix.trans (List.take_prefix p _).isInfix)

end NeverFox.Native
