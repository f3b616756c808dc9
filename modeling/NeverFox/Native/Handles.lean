import NeverFox.Client.ProxyUrl
import NeverFox.Lib.Ledger
import NeverFox.Native.ConnectProxy

namespace NeverFox.Native

open NeverFox.Client (NativeCall)

variable {Addr : Type}

-- What has to be given back: by PR_FreeAddrInfo, PR_Close and free.
inductive Handle
  | addrInfo (n : Nat)
  | fd (n : Nat)
  | ctx (n : Nat)
  deriving DecidableEq

def Handle.number : Handle → Nat
  | .addrInfo n | .fd n | .ctx n => n

-- A call that the library makes, with the handle it gets from it, or a read of
-- a context.
inductive Act (Addr : Type)
  | getAddrInfoByName (host : CString) (ai : Option Nat)
  | enumerateAddrInfo (ai : Nat) (addr : Option Addr)
  | freeAddrInfo (ai : Nat)
  | openTcpSocket (addr : Addr) (fd : Option Nat)
  | connect (fd : Nat) (addr : Addr) (port timeout : Nat) (ok : Bool)
  | tunnel (fd : Nat) (sent : List Bytes)
  | importFd (fd : Nat) (ok : Bool)
  | configure (fd : Nat) (ok : Bool)
  | setUrl (fd : Nat) (host : CString)
  | authCertificateHook (fd : Nat) (verify : Bool)
  | resetHandshake (fd : Nat)
  | clearSessionCache
  | forceHandshake (fd : Nat) (ok : Bool)
  | calloc (ctx : Nat)
  | getNextProto (fd : Nat)
  | deref (ctx : Nat)
  | write (fd : Nat) (data : Bytes)
  | recv (fd : Nat)
  | shutdown (fd : Nat)
  | close (fd : Nat)
  | free (ctx : Nat)
  | setLast (stage : String)

open Ledger.Entry in
def Act.entries : Act Addr → List (Ledger.Entry Handle)
  | .getAddrInfoByName _ ai => (ai.map fun ai => acquire (.addrInfo ai)).toList
  | .enumerateAddrInfo ai _ => [use (.addrInfo ai)]
  | .freeAddrInfo ai => [release (.addrInfo ai)]
  | .openTcpSocket _ fd => (fd.map fun fd => acquire (.fd fd)).toList
  | .connect fd _ _ _ _ | .tunnel fd _ | .importFd fd _ | .configure fd _ | .setUrl fd _
  | .authCertificateHook fd _ | .resetHandshake fd | .forceHandshake fd _ | .getNextProto fd
  | .write fd _ | .recv fd | .shutdown fd => [use (.fd fd)]
  | .calloc ctx => [acquire (.ctx ctx)]
  | .deref ctx => [use (.ctx ctx)]
  | .close fd => [release (.fd fd)]
  | .free ctx => [release (.ctx ctx)]
  | .clearSessionCache | .setLast _ => []

-- What the calls come to, by when they are made: the addresses of a name, the
-- connections, and how the handshakes go. `stack` is what lies behind an array.
structure Nspr (Addr : Type) where
  addresses : Nat → Option (List Addr)
  opens : Nat → Bool
  connects : Nat → Option Socket
  imports : Nat → Bool
  configures : Nat → Bool
  handshakes : Nat → Bool
  nextProto : Nat → Option Bytes
  stack : Nat → UInt8

-- A `fxtls_ctx *`, with what it points to, which nothing changes.
structure Ctx where
  number : Nat
  fd : Nat
  alpn : Bytes
  deriving DecidableEq

-- The time of a call is how many came before it, and a new handle is numbered
-- by the time it was got.
variable (n : Nspr Addr)

-- The loop of `fxtls__tcp` over the addresses.
def tcpLoop (ai port timeout : Nat) : List Addr → List (Act Addr) → Option (Nat × Socket) × List (Act Addr)
  | [], log => (none, log ++ [.enumerateAddrInfo ai none])
  | addr :: addrs, log =>
      let log := log ++ [.enumerateAddrInfo ai (some addr)]
      if n.opens log.length then
        let fd := log.length
        let log := log ++ [.openTcpSocket addr (some fd)]
        match n.connects log.length with
        | some s => (some (fd, s), log ++ [.connect fd addr port timeout true])
        | none => tcpLoop ai port timeout addrs (log ++ [.connect fd addr port timeout false, .close fd])
      else tcpLoop ai port timeout addrs (log ++ [.openTcpSocket addr none])

-- `(PRUint16)port`.
def fxtlsTcp (host : CString) (port timeout : Nat) (log : List (Act Addr)) :
    Option (Nat × Socket) × List (Act Addr) :=
  match n.addresses log.length with
  | none => (none, log ++ [.getAddrInfoByName host none])
  | some addrs =>
      let ai := log.length
      let (tcp, log) := tcpLoop n ai (port % 65536) timeout addrs (log ++ [.getAddrInfoByName host (some ai)])
      (tcp, log ++ [.freeAddrInfo ai])

-- `fxtls__finish`. The imported descriptor is the one of the socket. A protocol
-- of 24 octets would end behind its array.
def fxtlsFinish (fd : Nat) (host : CString) (verify : Bool) (log : List (Act Addr)) :
    Except Failure Ctx × List (Act Addr) :=
  if n.imports log.length then
    let log := log ++ [.importFd fd true]
    if n.configures log.length then
      let log := log ++ [.configure fd true, .setUrl fd host, .authCertificateHook fd verify,
        .resetHandshake fd, .clearSessionCache]
      if n.handshakes log.length then
        let log := log ++ [.forceHandshake fd true]
        let ctx := log.length
        let log := log ++ [.calloc ctx]
        let alpn := (n.nextProto log.length).getD []
        (if alpn.length < 24 then .ok ⟨ctx, fd, alpn⟩ else .error .overrun, log ++ [.getNextProto fd])
      else (.error .refused, log ++ [.forceHandshake fd false, .setLast "handshake", .close fd])
    else (.error .refused, log ++ [.configure fd false, .setLast "configure", .close fd])
  else (.error .refused, log ++ [.importFd fd false, .setLast "ssl-import", .close fd])

-- Behind a proxy: what was said through the tunnel, and how that went.
def throughTunnel (fd : Nat) (tunnel : Except Failure Unit × Socket) (host : CString) (verify : Bool)
    (log : List (Act Addr)) : Except Failure Ctx × List (Act Addr) :=
  let log := log ++ [.tunnel fd tunnel.2.sent]
  match tunnel.1 with
  | .ok () => fxtlsFinish n fd host verify log
  | .error .refused => (.error .refused, log ++ [.close fd])
  | .error .overrun => (.error .overrun, log)

-- `timeout_s > 0 ? timeout_s : 15`.
def seconds (timeout : Nat) : Nat := if timeout = 0 then 15 else timeout

def fxtlsConnect (host : CString) (port timeout : Nat) (verify : Bool) (log : List (Act Addr)) :
    Except Failure Ctx × List (Act Addr) :=
  match fxtlsTcp n host port (seconds timeout) log with
  | (none, log) => (.error .refused, log ++ [.setLast "tcp-connect"])
  | (some (fd, _), log) => fxtlsFinish n fd host verify log

def fxtlsConnectProxy (proxyHost : CString) (proxyPort : Nat) (host : CString) (port : Nat) (auth : CString)
    (timeout : Nat) (verify : Bool) (log : List (Act Addr)) : Except Failure Ctx × List (Act Addr) :=
  match fxtlsTcp n proxyHost proxyPort (seconds timeout) log with
  | (none, log) => (.error .refused, log)
  | (some (fd, s), log) => throughTunnel n fd (connectProxy n.stack host port auth s) host verify log

def fxtlsConnectSocks5 (proxyHost : CString) (proxyPort : Nat) (host : CString) (port : Nat)
    (user pass : CString) (timeout : Nat) (verify : Bool) (log : List (Act Addr)) :
    Except Failure Ctx × List (Act Addr) :=
  match fxtlsTcp n proxyHost proxyPort (seconds timeout) log with
  | (none, log) => (.error .refused, log)
  | (some (fd, s), log) => throughTunnel n fd (connectSocks5 user pass host port s) host verify log

def perform : NativeCall → List (Act Addr) → Except Failure Ctx × List (Act Addr)
  | .direct host port timeout verify => fxtlsConnect n (.ofBytes host) port timeout verify
  | .proxy proxyHost proxyPort host port auth timeout verify =>
      fxtlsConnectProxy n (.ofBytes proxyHost) proxyPort (.ofBytes host) port (.ofBytes auth) timeout verify
  | .socks5 proxyHost proxyPort host port user pass timeout verify =>
      fxtlsConnectSocks5 n (.ofBytes proxyHost) proxyPort (.ofBytes host) port (.ofBytes user)
        (.ofBytes pass) timeout verify

-- Where the TCP connection of a call goes, and what is said on it before TLS.
def dialled : NativeCall → CString × Nat
  | .direct host port _ _ => (.ofBytes host, port)
  | .proxy proxyHost proxyPort _ _ _ _ _ | .socks5 proxyHost proxyPort _ _ _ _ _ _ =>
      (.ofBytes proxyHost, proxyPort)

def introduction : NativeCall → Option (Socket → Except Failure Unit × Socket)
  | .direct _ _ _ _ => none
  | .proxy _ _ host port auth _ _ => some (connectProxy n.stack (.ofBytes host) port (.ofBytes auth))
  | .socks5 _ _ host port user pass _ _ =>
      some (connectSocks5 (.ofBytes user) (.ofBytes pass) (.ofBytes host) port)

-- The server that TLS is for, and the other arguments.
def target : NativeCall → CString
  | .direct host _ _ _ | .proxy _ _ host _ _ _ _ | .socks5 _ _ host _ _ _ _ _ => .ofBytes host

def verified : NativeCall → Bool
  | .direct _ _ _ verify | .proxy _ _ _ _ _ _ verify | .socks5 _ _ _ _ _ _ _ verify => verify

def patience : NativeCall → Nat
  | .direct _ _ timeout _ | .proxy _ _ _ _ _ timeout _ | .socks5 _ _ _ _ _ _ timeout _ => seconds timeout

-- The three functions do the same but for these.
theorem perform_eq (call : NativeCall) (log : List (Act Addr)) :
    perform n call log =
      match fxtlsTcp n (dialled call).1 (dialled call).2 (patience call) log with
      | (none, log) =>
          (.error .refused, log ++ if (introduction n call).isNone then [.setLast "tcp-connect"] else [])
      | (some (fd, s), log) =>
          match introduction n call with
          | none => fxtlsFinish n fd (target call) (verified call) log
          | some introduce => throughTunnel n fd (introduce s) (target call) (verified call) log := by
  cases call with
  | direct host port timeout verify => rfl
  | proxy proxyHost proxyPort host port auth timeout verify =>
      simp only [perform, fxtlsConnectProxy, dialled, patience, introduction]
      rcases fxtlsTcp n (.ofBytes proxyHost) proxyPort (seconds timeout) log with ⟨_ | ⟨fd, s⟩, log⟩
      · exact congrArg (Prod.mk _) (List.append_nil log).symm
      · rfl
  | socks5 proxyHost proxyPort host port user pass timeout verify =>
      simp only [perform, fxtlsConnectSocks5, dialled, patience, introduction]
      rcases fxtlsTcp n (.ofBytes proxyHost) proxyPort (seconds timeout) log with ⟨_ | ⟨fd, s⟩, log⟩
      · exact congrArg (Prod.mk _) (List.append_nil log).symm
      · rfl

variable {n}

-- The log only grows.
theorem tcpLoop_extends {ai port timeout : Nat} (addrs : List Addr) (log : List (Act Addr)) :
    log <+: (tcpLoop n ai port timeout addrs log).2 := by
  induction addrs generalizing log with
  | nil => exact List.prefix_append ..
  | cons addr addrs ih =>
      unfold tcpLoop
      dsimp only
      simp only [List.append_assoc]
      split
      · split
        · exact List.prefix_append ..
        · exact (List.prefix_append ..).trans (ih _)
      · exact (List.prefix_append ..).trans (ih _)

theorem fxtlsTcp_extends (host : CString) (port timeout : Nat) (log : List (Act Addr)) :
    log <+: (fxtlsTcp n host port timeout log).2 := by
  unfold fxtlsTcp
  split
  · exact List.prefix_append ..
  · exact ((List.prefix_append ..).trans (tcpLoop_extends _ _)).trans (List.prefix_append ..)

theorem fxtlsFinish_extends (fd : Nat) (host : CString) (verify : Bool) (log : List (Act Addr)) :
    log <+: (fxtlsFinish n fd host verify log).2 := by
  unfold fxtlsFinish
  dsimp only
  simp only [List.append_assoc]
  split
  · split
    · split
      · exact List.prefix_append ..
      · exact List.prefix_append ..
    · exact List.prefix_append ..
  · exact List.prefix_append ..

theorem throughTunnel_extends (fd : Nat) (tunnel : Except Failure Unit × Socket) (host : CString)
    (verify : Bool) (log : List (Act Addr)) : log <+: (throughTunnel n fd tunnel host verify log).2 := by
  unfold throughTunnel
  dsimp only
  split
  · exact (List.prefix_append ..).trans (fxtlsFinish_extends ..)
  · rw [List.append_assoc]
    exact List.prefix_append ..
  · exact List.prefix_append ..

theorem perform_extends (call : NativeCall) (log : List (Act Addr)) : log <+: (perform n call log).2 := by
  rw [perform_eq]
  have htcp := fxtlsTcp_extends (n := n) (dialled call).1 (dialled call).2 (patience call) log
  split
  · next hgot =>
    rw [hgot] at htcp
    exact htcp.trans (List.prefix_append ..)
  · next hgot =>
    rw [hgot] at htcp
    split
    · exact htcp.trans (fxtlsFinish_extends ..)
    · exact htcp.trans (throughTunnel_extends ..)

-- A socket that is connected is the last one opened.
theorem tcpLoop_eq_some {ai port timeout fd : Nat} {s : Socket} {addrs : List Addr}
    {log log' : List (Act Addr)}
    (h : tcpLoop n ai port timeout addrs log = (some (fd, s), log')) :
    ∃ tries addr, fd = (log ++ tries).length ∧
      log' = log ++ tries ++ [.openTcpSocket addr (some fd), .connect fd addr port timeout true] := by
  induction addrs generalizing log with
  | nil => cases h
  | cons addr addrs ih =>
      unfold tcpLoop at h
      dsimp only at h
      split at h
      · split at h
        · obtain ⟨hgot, rfl⟩ := Prod.mk.inj h
          obtain ⟨rfl, _⟩ := Prod.mk.inj (Option.some.inj hgot)
          refine ⟨[.enumerateAddrInfo ai (some addr)], addr, rfl, ?_⟩
          simp only [List.append_assoc, List.cons_append, List.nil_append]
        · obtain ⟨tries, last, hfd, rfl⟩ := ih h
          simp only [List.append_assoc, List.cons_append, List.nil_append] at hfd ⊢
          exact ⟨_, last, hfd, rfl⟩
      · obtain ⟨tries, last, hfd, rfl⟩ := ih h
        simp only [List.append_assoc, List.cons_append, List.nil_append] at hfd ⊢
        exact ⟨_, last, hfd, rfl⟩

theorem fxtlsTcp_eq_some {host : CString} {port timeout fd : Nat} {s : Socket} {log log' : List (Act Addr)}
    (h : fxtlsTcp n host port timeout log = (some (fd, s), log')) :
    ∃ ai tries addr, fd = (log ++ .getAddrInfoByName host (some ai) :: tries).length ∧
      log' = log ++ .getAddrInfoByName host (some ai) :: tries ++
        [.openTcpSocket addr (some fd), .connect fd addr (port % 65536) timeout true, .freeAddrInfo ai] := by
  unfold fxtlsTcp at h
  split at h
  · cases h
  · next addrs _ =>
    cases hloop : tcpLoop n log.length (port % 65536) timeout addrs
        (log ++ [.getAddrInfoByName host (some log.length)]) with
    | mk got mid =>
        simp only [hloop] at h
        obtain ⟨rfl, rfl⟩ := Prod.mk.inj h
        obtain ⟨tries, addr, hfd, rfl⟩ := tcpLoop_eq_some hloop
        simp only [List.append_assoc, List.cons_append, List.nil_append] at hfd ⊢
        exact ⟨_, tries, addr, hfd, rfl⟩

-- How NSS is set up on a descriptor and made to shake hands, in this order.
def secured (fd ctx : Nat) (host : CString) (verify : Bool) : List (Act Addr) :=
  [.importFd fd true, .configure fd true, .setUrl fd host, .authCertificateHook fd verify, .resetHandshake fd,
    .clearSessionCache, .forceHandshake fd true, .calloc ctx, .getNextProto fd]

theorem fxtlsFinish_eq_ok {fd : Nat} {host : CString} {verify : Bool} {c : Ctx} {log log' : List (Act Addr)}
    (h : fxtlsFinish n fd host verify log = (.ok c, log')) :
    c.fd = fd ∧ log.length ≤ c.number ∧ log' = log ++ secured fd c.number host verify := by
  unfold fxtlsFinish at h
  dsimp only at h
  split at h
  · split at h
    · split at h
      · split at h
        · obtain ⟨hc, rfl⟩ := Prod.mk.inj h
          obtain rfl := Except.ok.inj hc
          refine ⟨rfl, ?_, ?_⟩
          · simp only [List.append_assoc, List.length_append]
            omega
          · simp only [secured, List.append_assoc, List.cons_append, List.nil_append]
        · cases h
      · cases h
    · cases h
  · cases h

-- What is said on a connection before TLS, which is nothing but to a proxy, and
-- there has been agreed to.
def Introduces (n : Nspr Addr) (call : NativeCall) (fd : Nat) (acts : List (Act Addr)) : Prop :=
  match introduction n call with
  | none => acts = []
  | some introduce => ∃ s, (introduce s).1 = .ok () ∧ acts = [.tunnel fd (introduce s).2.sent]

-- The calls by which a connection was made, one behind the other.
def SetUp (n : Nspr Addr) (call : NativeCall) (c : Ctx) (acts : List (Act Addr)) : Prop :=
  ∃ ai tries addr introduced, Introduces n call c.fd introduced ∧
    acts = .getAddrInfoByName (dialled call).1 (some ai) :: tries ++
      [.openTcpSocket addr (some c.fd), .connect c.fd addr ((dialled call).2 % 65536) (patience call) true,
        .freeAddrInfo ai] ++ introduced ++ secured c.fd c.number (target call) (verified call)

theorem perform_eq_ok {call : NativeCall} {c : Ctx} {log log' : List (Act Addr)}
    (h : perform n call log = (.ok c, log')) :
    log.length ≤ c.fd ∧ log.length ≤ c.number ∧ ∃ acts, SetUp n call c acts ∧ log' = log ++ acts := by
  rw [perform_eq] at h
  cases hgot : fxtlsTcp n (dialled call).1 (dialled call).2 (patience call) log with
  | mk got mid =>
      rw [hgot] at h
      cases got with
      | none => cases h
      | some p =>
          obtain ⟨fd, s⟩ := p
          obtain ⟨ai, tries, addr, hfd, rfl⟩ := fxtlsTcp_eq_some hgot
          have hlow : log.length ≤ fd := by
            rw [hfd, List.length_append]
            omega
          dsimp only at h
          split at h
          · next hnone =>
            obtain ⟨rfl, hnumber, rfl⟩ := fxtlsFinish_eq_ok h
            simp only [List.length_append] at hnumber
            refine ⟨hlow, by omega, _, ⟨ai, tries, addr, [], ?_, rfl⟩, ?_⟩
            · unfold Introduces
              rw [hnone]
            · simp only [List.append_assoc, List.nil_append, List.cons_append]
          · next introduce hsome =>
            unfold throughTunnel at h
            dsimp only at h
            split at h
            · next hok =>
              obtain ⟨rfl, hnumber, rfl⟩ := fxtlsFinish_eq_ok h
              simp only [List.length_append] at hnumber
              refine ⟨hlow, by omega, _, ⟨ai, tries, addr, [.tunnel c.fd (introduce s).2.sent], ?_, rfl⟩, ?_⟩
              · unfold Introduces
                rw [hsome]
                exact ⟨s, hok, rfl⟩
              · simp only [List.append_assoc, List.nil_append, List.cons_append]
            · cases h
            · cases h

-- A `_native.Transport`, with the call that made it.
structure Transport where
  call : NativeCall
  ctx : Option Ctx
  peerEof : Bool := false

-- What is done with the transports. A read may find the peer gone.
inductive Use
  | init (call : NativeCall)
  | alpn (i : Nat)
  | write (i : Nat) (data : Bytes)
  | read (i : Nat) (gone : Bool)
  | close (i : Nat)

namespace Transport

variable (t : Transport)

def handles : Finset Handle := t.ctx.elim ∅ fun c => {.fd c.fd, .ctx c.number}

-- With NULL for a context the C functions touch nothing, and a read fails.
def alpn : List (Act Addr) := t.ctx.elim [] fun c => [.deref c.number]

def write (data : Bytes) : List (Act Addr) := t.ctx.elim [] fun c => [.deref c.number, .write c.fd data]

def read : List (Act Addr) := t.ctx.elim [] fun c => [.deref c.number, .recv c.fd]

def afterRead (gone : Bool) : Transport := { t with peerEof := t.peerEof || gone || t.ctx.isNone }

def close : List (Act Addr) := t.ctx.elim [] fun c =>
  (if t.peerEof then [.deref c.number, .shutdown c.fd] else []) ++
    [.deref c.number, .close c.fd, .free c.number]

def afterClose : Transport := { t with ctx := none }

end Transport

-- The transports of a process that have been made, and what the library did.
structure Process (Addr : Type) where
  log : List (Act Addr) := []
  made : Nat := 0
  transports : Nat → Option Transport := fun _ => none

namespace Process

variable (p : Process Addr)

def handles (i : Nat) : Finset Handle := (p.transports i).elim ∅ Transport.handles

def put (i : Nat) (acts : List (Act Addr)) (t : Transport) : Process Addr :=
  { p with log := p.log ++ acts, transports := Function.update p.transports i (some t) }

def add (log : List (Act Addr)) (t : Transport) : Process Addr where
  log := log
  made := p.made + 1
  transports := Function.update p.transports p.made (some t)

@[simp] theorem put_same (i : Nat) (acts : List (Act Addr)) (t : Transport) :
    (p.put i acts t).transports i = some t := Function.update_self ..

theorem put_other {i j : Nat} (h : j ≠ i) (acts : List (Act Addr)) (t : Transport) :
    (p.put i acts t).transports j = p.transports j := Function.update_of_ne h ..

@[simp] theorem add_made (log : List (Act Addr)) (t : Transport) :
    (p.add log t).transports p.made = some t := Function.update_self ..

theorem add_other {j : Nat} (h : j ≠ p.made) (log : List (Act Addr)) (t : Transport) :
    (p.add log t).transports j = p.transports j := Function.update_of_ne h ..

def on (i : Nat) (acts : Transport → List (Act Addr)) (after : Transport → Transport) :
    Option (Process Addr) :=
  (p.transports i).map fun t => p.put i (acts t) (after t)

end Process

-- None where an array is overrun, and for a transport there is not. A connect
-- that comes to nothing makes `__init__` raise.
def Process.step (n : Nspr Addr) (p : Process Addr) : Use → Option (Process Addr)
  | .init call =>
      match perform n call p.log with
      | (.ok c, log) => some (p.add log { call := call, ctx := some c })
      | (.error .refused, log) => some { p with log := log }
      | (.error .overrun, _) => none
  | .alpn i => p.on i Transport.alpn id
  | .write i data => p.on i (·.write data) id
  | .read i gone => p.on i Transport.read (·.afterRead gone)
  | .close i => p.on i Transport.close Transport.afterClose

end NeverFox.Native
