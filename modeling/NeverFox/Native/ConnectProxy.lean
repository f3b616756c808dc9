import NeverFox.Native.Socks5
import Mathlib.Data.List.Infix

namespace NeverFox.Native

def ascii (text : String) : Bytes := text.toList.map fun c => UInt8.ofNat c.toNat

def crlf2 : Bytes := [13, 10, 13, 10]

-- The text that is printed into `req`; `auth` has the credentials in base64.
def requestText (host : CString) (port : Int) (auth : CString) : Bytes :=
  if auth.bytes = [] then
    ascii "CONNECT " ++ host.bytes ++ ascii ":" ++ ascii (toString port) ++ ascii " HTTP/1.1\r\nHost: " ++
      host.bytes ++ ascii ":" ++ ascii (toString port) ++ ascii "\r\nProxy-Connection: keep-alive" ++ crlf2
  else
    ascii "CONNECT " ++ host.bytes ++ ascii ":" ++ ascii (toString port) ++ ascii " HTTP/1.1\r\nHost: " ++
      host.bytes ++ ascii ":" ++ ascii (toString port) ++ ascii "\r\nProxy-Authorization: Basic " ++
      auth.bytes ++ ascii "\r\nProxy-Connection: keep-alive" ++ crlf2

-- What snprintf returns, which is the length of the whole text if that is an
-- int, and the octets it stores in an array of `size`.
def snprintf (size : Nat) (text : Bytes) : Int × Bytes :=
  (if text.length ≤ 2147483647 then text.length else -1, text.take (size - 1) ++ [0])

-- The first `n` octets from the start of `req`. Behind those that were stored
-- it is what the stack holds.
def fromStack (stored : Bytes) (stack : Nat → UInt8) (n : Nat) : Bytes :=
  stored.take n ++ (List.range (n - stored.length)).map fun i => stack (stored.length + i)

-- `PR_Write(tcp, req, n) != n` is false also where both are -1.
def sendRequest (stack : Nat → UInt8) (host : CString) (port : Int) (auth : CString) (s : Socket) :
    Bool × Socket :=
  let (n, stored) := snprintf 1200 (requestText host port auth)
  let (whole, s) := s.write (fromStack stored stack n.toNat)
  (whole || n = -1, s)

-- What the C functions see of the octets read so far.
def cText (got : Bytes) : Bytes := got.takeWhile (· ≠ 0)

def terminated (got : Bytes) : Bool := crlf2 <:+: cText got

-- `strchr(buf, ' ')` is followed by a '2'.
def accepted (got : Bytes) : Bool :=
  match (cText got).dropWhile (· ≠ 32) with
  | _ :: 50 :: _ => true
  | _ => false

-- `fxtls_connect_proxy` on a socket that is connected to the proxy.
def connectProxy (stack : Nat → UInt8) (host : CString) (port : Int) (auth : CString) (s : Socket) :
    Except Failure Unit × Socket :=
  match sendRequest stack host port auth s with
  | (false, s) => (.error .refused, s)
  | (true, s) =>
      match Feed.gather terminated 2047 2047 [] s.feed with
      | none => (.error .refused, s)
      | some (buf, feed) =>
          if accepted buf then (.ok (), { s with feed := feed })
          else (.error .refused, { s with feed := feed })

theorem connectProxy_sent (stack : Nat → UInt8) (host : CString) (port : Int) (auth : CString) (s : Socket) :
    (connectProxy stack host port auth s).2.sent = s.sent ++
      [fromStack (snprintf 1200 (requestText host port auth)).2 stack
        (snprintf 1200 (requestText host port auth)).1.toNat] := by
  unfold connectProxy
  split
  · rename_i hsend
    rw [← (Prod.mk.inj hsend).2]
    rfl
  · rename_i hsend
    obtain rfl := (Prod.mk.inj hsend).2
    split
    · rfl
    · split
      · rfl
      · rfl

-- How long the text is: the host and the port are in it twice.
def requestLength (host : CString) (port : Int) (auth : CString) : Nat :=
  61 + 2 * host.bytes.length + 2 * (toString port).toList.length +
    if auth.bytes = [] then 0 else 29 + auth.bytes.length

@[simp] theorem ascii_length (text : String) : (ascii text).length = text.toList.length :=
  List.length_map ..

theorem requestText_length (host : CString) (port : Int) (auth : CString) :
    (requestText host port auth).length = requestLength host port auth := by
  unfold requestText requestLength
  split
  · simp [crlf2]
    omega
  · simp [crlf2]
    omega

theorem requestText_getLast (host : CString) (port : Int) (auth : CString) :
    (requestText host port auth).getLast? = some 10 := by
  unfold requestText
  split
  · rw [List.getLast?_append]
    rfl
  · rw [List.getLast?_append]
    rfl

theorem snprintf_fits {size : Nat} {text : Bytes} (h : text.length < size) (hint : size ≤ 2147483647) :
    snprintf size text = ((text.length : Int), text ++ [0]) := by
  rw [snprintf, if_pos (by omega), List.take_of_length_le (by omega)]

-- Within what was stored, the stack makes no difference.
theorem fromStack_stored {stored : Bytes} {n : Nat} (h : n ≤ stored.length) (stack : Nat → UInt8) :
    fromStack stored stack n = stored.take n := by
  rw [fromStack, Nat.sub_eq_zero_of_le h]
  exact List.append_nil _

theorem fromStack_length (stored : Bytes) (stack : Nat → UInt8) (n : Nat) :
    (fromStack stored stack n).length = n := by
  rw [fromStack, List.length_append, List.length_take, List.length_map, List.length_range]
  omega

-- A text that is cut at the array's end is not what is then sent, even where
-- no more is sent than the array holds.
theorem cut_text_differs {size : Nat} {text : Bytes} (hsize : 0 < size) (hcut : size ≤ text.length)
    (hlast : text.getLast? ≠ some 0) {n : Nat} (hn : n ≤ (snprintf size text).2.length)
    (stack : Nat → UInt8) : fromStack (snprintf size text).2 stack n ≠ text := by
  intro heq
  have hlen := fromStack_length (snprintf size text).2 stack n
  have hstored : (snprintf size text).2.length = size := by
    rw [snprintf, List.length_append, List.length_take, List.length_singleton]
    omega
  rw [heq] at hlen
  rw [fromStack_stored hn, List.take_of_length_le (by omega)] at heq
  apply hlast
  rw [← heq, snprintf]
  simp

-- The request is sent whole and from the array for exactly these lengths: a
-- longer one is cut where it is stored and not where it is sent.
theorem connect_request_iff (stack : Nat → UInt8) (host : CString) (port : Int) (auth : CString)
    (feed : Feed UInt8) (accepts : Nat → Bool) :
    let result := connectProxy stack host port auth ⟨feed, accepts, []⟩
    let printed := snprintf 1200 (requestText host port auth)
    ((result.1 = .error .refused ∧ result.2.sent = []) ∨
      (result.2.sent = [requestText host port auth] ∧ printed.1 ≤ 1200 ∧ printed.1 ≤ printed.2.length)) ↔
    requestLength host port auth < 1200 := by
  intro result printed
  have hsent : result.2.sent = [fromStack printed.2 stack printed.1.toNat] :=
    connectProxy_sent stack host port auth ⟨feed, accepts, []⟩
  rw [hsent, ← requestText_length]
  constructor
  · rintro (⟨_, hnone⟩ | ⟨hmessage, _, hstored⟩)
    · cases hnone
    · apply Nat.lt_of_not_le
      intro hlong
      have hlast : (requestText host port auth).getLast? ≠ some 0 := by
        rw [requestText_getLast]
        decide
      have hn : printed.1.toNat ≤ printed.2.length := by omega
      exact cut_text_differs (by decide) hlong hlast hn stack (List.singleton_inj.mp hmessage)
  · intro hshort
    have hprinted : printed =
        (((requestText host port auth).length : Int), requestText host port auth ++ [0]) :=
      snprintf_fits hshort (by decide)
    rw [hprinted]
    refine .inr ⟨?_, by dsimp only; omega, ?_⟩
    · rw [Int.toNat_natCast, fromStack_stored (by rw [List.length_append]; omega), List.take_left]
    · rw [List.length_append]
      omega

def openSocket : Socket := ⟨⟨[], fun _ => 0⟩, fun _ => true, []⟩

def longHost : CString := ⟨List.replicate 600 97, fun h => absurd (List.eq_of_mem_replicate h) (by decide)⟩

-- To this host the request is sent with what lies behind the array.
theorem long_host_leaks_stack :
    let text := requestText longHost 443 (.ofBytes [])
    let sent := (connectProxy (fun _ => 83) longHost 443 (.ofBytes []) openSocket).2.sent
    (snprintf 1200 text).1 = 1267 ∧ (snprintf 1200 text).2.length = 1200 ∧
    sent = [(snprintf 1200 text).2 ++ List.replicate 67 83] ∧ sent ≠ [text] := by
  intro text sent
  have hlen : text.length = 1267 := by
    rw [requestText_length, requestLength, longHost, List.length_replicate]
    rfl
  have hprinted : (snprintf 1200 text).1 = 1267 := by rw [snprintf, hlen]; rfl
  have hstored : (snprintf 1200 text).2.length = 1200 := by
    rw [snprintf, List.length_append, List.length_take, hlen]
    rfl
  have hsent : sent = [(snprintf 1200 text).2 ++ List.replicate 67 83] := by
    have hall := connectProxy_sent (fun _ => 83) longHost 443 (.ofBytes []) openSocket
    rw [hprinted, fromStack, hstored, List.take_of_length_le (by rw [hstored]; decide)] at hall
    exact hall
  refine ⟨hprinted, hstored, hsent, fun heq => ?_⟩
  have hlast := congrArg List.getLast? (List.singleton_inj.mp (hsent.symm.trans heq))
  rw [requestText_getLast, List.getLast?_append] at hlast
  exact absurd hlast (by decide)

end NeverFox.Native
