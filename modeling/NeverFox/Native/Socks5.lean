import NeverFox.Native.Socket

namespace NeverFox.Native

-- The messages as the two protocols lay them out, where there is a layout.
namespace Rfc

-- A string behind one octet that holds its length.
def counted (text : Bytes) : Option Bytes :=
  if text.length < 256 then some (UInt8.ofNat text.length :: text) else none

-- NMETHODS, ULEN and PLEN are 1 to 255.
def field (text : Bytes) : Option Bytes := if text = [] then none else counted text

def methods (offered : Bytes) : Option Bytes := (field offered).map fun ms => 5 :: ms

def userPass (user pass : Bytes) : Option Bytes := do
  let u ← field user
  let p ← field pass
  some (1 :: u ++ p)

-- CONNECT to a domain name.
def connect (host : Bytes) (port : Int) : Option Bytes :=
  if 0 ≤ port ∧ port < 65536 then
    (counted host).map fun name =>
      [5, 1, 0, 3] ++ name ++ [UInt8.ofNat (port.toNat / 256), UInt8.ofNat (port.toNat % 256)]
  else none

end Rfc

-- A connect that returns NULL, or that stores behind the end of a local array.
inductive Failure
  | refused
  | overrun
  deriving DecidableEq

variable {α β : Type}

-- Go on with what a stage has come to, if it has not failed.
def andThen (stage : Except Failure α × Socket) (next : α → Socket → Except Failure β × Socket) :
    Except Failure β × Socket :=
  match stage with
  | (.error failure, s) => (.error failure, s)
  | (.ok a, s) => next a s

@[simp] theorem andThen_ok (a : α) (s : Socket) (next : α → Socket → Except Failure β × Socket) :
    andThen (.ok a, s) next = next a s := rfl

@[simp] theorem andThen_error (failure : Failure) (s : Socket)
    (next : α → Socket → Except Failure β × Socket) :
    andThen (.error failure, s) next = (.error failure, s) := rfl

-- The methods offered: none, and user/pass with a user.
def offered (user : CString) : Bytes := if user.bytes = [] then [0] else [0, 2]

def greeting (user : CString) : Bytes := if user.bytes = [] then [5, 1, 0] else [5, 2, 0, 2]

def authMessage (size : Nat) (user pass : CString) : Option (Buffer size) := do
  let b ← Buffer.empty.put 1
  let b ← b.put (uchar user.strlen)
  let b ← b.copy user.bytes user.strlen
  let b ← b.put (uchar pass.strlen)
  if pass.strlen = 0 then some b else b.copy pass.bytes pass.strlen

-- `>> 8` on an int rounds down.
def connectMessage (size : Nat) (host : CString) (port : Int) : Option (Buffer size) := do
  let b ← Buffer.empty.put 5
  let b ← b.put 1
  let b ← b.put 0
  let b ← b.put 3
  let b ← b.put (uchar host.strlen)
  let b ← b.copy host.bytes host.strlen
  let b ← b.put (uchar (port / 256))
  b.put (uchar port)

-- A message that was stored in the local array.
def stored (message : Option (Buffer 600)) (s : Socket) : Except Failure Bytes × Socket :=
  match message with
  | none => (.error .overrun, s)
  | some b => (.ok b.bytes, s)

-- Write a message, and read a reply of at most `n` octets.
def ask (message : Bytes) (n : Nat) (s : Socket) : Except Failure Bytes × Socket :=
  match s.write message with
  | (false, s) => (.error .refused, s)
  | (true, s) =>
      let (reply, s) := s.recv n
      (.ok reply, s)

-- The greeting, and the method that the proxy selects.
def selectMethod (user : CString) (s : Socket) : Except Failure UInt8 × Socket :=
  andThen (ask (greeting user) 2 s) fun reply s =>
    match reply with
    | [5, method] => (.ok method, s)
    | _ => (.error .refused, s)

def authenticate (user pass : CString) (s : Socket) : Except Failure Unit × Socket :=
  andThen (stored (authMessage 600 user pass) s) fun message s =>
  andThen (ask message 2 s) fun reply s =>
    match reply with
    | [_, 0] => (.ok (), s)
    | _ => (.error .refused, s)

-- The request, and the address type of a reply that grants it.
def requestConnect (host : CString) (port : Int) (s : Socket) : Except Failure UInt8 × Socket :=
  if 255 < host.strlen then (.error .refused, s)
  else
    andThen (stored (connectMessage 600 host port) s) fun message s =>
    andThen (ask message 4 s) fun reply s =>
      match reply with
      | [_, 0, _, atyp] => (.ok atyp, s)
      | _ => (.error .refused, s)

-- How long the bound address is.
def boundLength (atyp : UInt8) (s : Socket) : Except Failure Nat × Socket :=
  if atyp = 3 then
    match s.recv 1 with
    | ([alen], s) => (.ok alen.toNat, s)
    | (_, s) => (.error .refused, s)
  else (.ok (if atyp = 1 then 4 else if atyp = 4 then 16 else 0), s)

-- The bound address and port are read in pieces and discarded.
def discard (rem : Nat) (s : Socket) : Except Failure Unit × Socket :=
  match Feed.drain 600 rem rem s.feed with
  | none => (.error .refused, s)
  | some feed => (.ok (), { s with feed := feed })

-- `fxtls_connect_socks5` on a socket that is connected to the proxy. It is ok
-- where `fxtls__finish` is called, which starts the TLS handshake.
def connectSocks5 (user pass host : CString) (port : Int) (s : Socket) : Except Failure Unit × Socket :=
  andThen (selectMethod user s) fun method s =>
  andThen (if method = 2 then authenticate user pass s
    else if method = 0 then (.ok (), s) else (.error .refused, s)) fun _ s =>
  andThen (requestConnect host port s) fun atyp s =>
  andThen (boundLength atyp s) fun alen s =>
  discard (alen + 2) s

section

variable {s : Socket} {message : Bytes} {n : Nat}

theorem andThen_stored {message : Option (Buffer 600)} {next : Bytes → Socket → Except Failure α × Socket} :
    andThen (stored message s) next =
      match message with
      | none => (.error .overrun, s)
      | some b => next b.bytes s := by
  cases message <;> rfl

theorem andThen_ask {next : Bytes → Socket → Except Failure α × Socket} :
    andThen (ask message n s) next =
      if s.accepts 0 then next (s.feed.read n).1 ((s.write message).2.recv n).2
      else (.error .refused, (s.write message).2) := by
  unfold ask Socket.write
  cases s.accepts 0 <;> rfl

end

-- The octets that the two messages are put together from, if that does not fail.
def authBytes (user pass : CString) : Bytes :=
  [1, uchar user.strlen] ++ user.bytes.take user.strlen.toNat ++ [uchar pass.strlen] ++
    pass.bytes.take pass.strlen.toNat

def connectBytes (host : CString) (port : Int) : Bytes :=
  [5, 1, 0, 3, uchar host.strlen] ++ host.bytes.take host.strlen.toNat ++
    [uchar (port / 256), uchar port]

theorem authMessage_eq_some {size : Nat} (user pass : CString) (b : Buffer size) :
    authMessage size user pass = some b ↔ 0 ≤ user.strlen ∧ 0 ≤ pass.strlen ∧
      (authBytes user pass).length ≤ size ∧ b.bytes = authBytes user pass := by
  by_cases hu : 0 ≤ user.strlen
  · by_cases hp : 0 ≤ pass.strlen
    · have hlast : ∀ b : Buffer size, (if pass.strlen = 0 then some b else b.copy pass.bytes pass.strlen) =
          (pass.bytes.take pass.strlen.toNat).foldlM Buffer.put b := by
        intro b
        split
        · rename_i hzero
          simp [hzero]
        · exact Buffer.copy_nonneg hp
      have hfold : authMessage size user pass = (authBytes user pass).foldlM Buffer.put Buffer.empty := by
        simp only [authMessage, authBytes, hlast, Buffer.copy_nonneg hu, List.foldlM_append, List.foldlM_cons,
          List.foldlM_nil, Option.bind_eq_bind, Option.pure_def, Option.bind_assoc, Option.bind_fun_some]
      rw [hfold, Buffer.foldlM_put_empty]
      exact ⟨fun h => ⟨hu, hp, h⟩, fun h => h.2.2⟩
    · have hlast : ∀ b : Buffer size, (if pass.strlen = 0 then some b else b.copy pass.bytes pass.strlen) =
          none := by
        intro b
        rw [if_neg (by omega)]
        exact Buffer.copy_neg (by omega)
      simp [authMessage, hlast, hp]
  · simp [authMessage, Buffer.copy_neg (by omega : user.strlen < 0), hu]

theorem connectMessage_eq_some {size : Nat} (host : CString) (port : Int) (b : Buffer size) :
    connectMessage size host port = some b ↔ 0 ≤ host.strlen ∧
      (connectBytes host port).length ≤ size ∧ b.bytes = connectBytes host port := by
  by_cases hh : 0 ≤ host.strlen
  · have hfold : connectMessage size host port = (connectBytes host port).foldlM Buffer.put Buffer.empty := by
      simp only [connectMessage, connectBytes, Buffer.copy_nonneg hh, List.foldlM_append, List.foldlM_cons,
        List.foldlM_nil, Option.bind_eq_bind, Option.pure_def, Option.bind_assoc, Option.bind_fun_some]
    rw [hfold, Buffer.foldlM_put_empty]
    exact ⟨fun h => ⟨hh, h⟩, fun h => h.2⟩
  · simp [connectMessage, Buffer.copy_neg (by omega : host.strlen < 0), hh]

end NeverFox.Native
