import NeverFox.Client.SendOnce
import NeverFox.Lib.Dict
import Mathlib.Data.List.Sort

namespace NeverFox.Pool

open NeverFox.H2 NeverFox.Client

variable {ε δ : Type}

-- (host, port, proxy).
abbrev Key := String × Nat × Option Proxy

-- What a caller does behind a loop over connections to be closed: the rest of
-- `_get_conn`, of `Session.close`, or the return from either.
inductive Next
  | scan (key : Key)
  | clear
  | hand (conn : Option Nat)

-- Where a caller of the session stands.
inductive Caller
  | idle
  | closing (todo : List Nat) (next : Next)
  | clearing
  | scanning (key : Key)
  | waiting (key : Key)
  | connecting (key : Key)
  | fresh (key : Key) (conn : Nat)
  | acquired (key : Key) (conn : Nat)
  | leaving (key : Key) (conn : Option Nat)
  | holding (conn : Nat)
  | pending (conn sid : Nat)
  | woken (conn sid : Nat)
  | expired (conn sid : Nat)

-- What a connect comes to. `fate` is that of the writes on the new connection.
inductive Connect
  | failed
  | http1
  | h2 (fate : Nat → Option Nat)

-- A session's pool, the connections it has made, in their order, and its
-- callers. No step reads `maxConns`. `received` keeps the frames each
-- connection was given, and `returned` what its requests came to.
structure State (ε δ : Type) where
  maxConns : Nat
  conns : Nat → Conn ε δ
  made : Nat := 0
  pool : Dict Key (List Nat) := .empty
  draining : List Nat := []
  creating : List Key := []
  caller : Nat → Caller := fun _ => .idle
  received : Nat → List Frame := fun _ => []
  returned : List (Nat × Nat × Except Exn RawResponse) := []

-- One locked section of the session, or what happens on one connection.
inductive Act
  | existingConn (t : Nat) (key : Key)
  | getConn (t : Nat) (key : Key)
  | close (t : Nat)
  | closeNext (t : Nat)
  | clear (t : Nat)
  | scan (t : Nat)
  | wake (t : Nat)
  | connect (t : Nat) (outcome : Connect)
  | acquire (t : Nat)
  | insert (t : Nat)
  | leave (t : Nat)
  | send (t : Nat) (args : SendArgs)
  | abandon (t : Nat)
  | done (t : Nat)
  | expire (t : Nat)
  | pop (t : Nat)
  | frame (i : Nat) (f : Frame)
  | eof (i : Nat)
  | readTimeout (i : Nat)

namespace State

def start (hp : Hpack ε δ) (maxConns : Nat) : State ε δ :=
  { maxConns := maxConns, conns := fun _ => .init hp fun _ => none }

def pooled (s : State ε δ) (key : Key) : List Nat := s.pool.getD key []

def setCaller (s : State ε δ) (t : Nat) (caller : Caller) : State ε δ :=
  { s with caller := Function.update s.caller t caller }

def setConn (s : State ε δ) (i : Nat) (c : Conn ε δ) : State ε δ :=
  { s with conns := Function.update s.conns i c }

def setPooled (s : State ε δ) (key : Key) (conns : List Nat) : State ε δ :=
  { s with pool := s.pool.set key conns }

-- `_evict_closed` on the list of a key.
def evictClosed (s : State ε δ) (key : Key) : State ε δ :=
  { s.setPooled key ((s.pooled key).filter fun i => !(s.conns i).closed) with
    draining := s.draining ++ (s.pooled key).filter fun i => (s.conns i).closed }

def leastLoaded (s : State ε δ) (conns : List Nat) : List Nat :=
  conns.insertionSort fun i j => (s.conns i).active ≤ (s.conns j).active

-- The first connection of a key, by load, that acquire() does not refuse.
def available (s : State ε δ) (key : Key) : Option Nat :=
  (s.leastLoaded (s.pooled key)).find? fun i => (s.conns i).acquirable

def acquire (s : State ε δ) (i : Nat) : State ε δ := s.setConn i (s.conns i).acquire

-- `_reap` takes the draining connections.
def reap (s : State ε δ) (t : Nat) (next : Next) : State ε δ :=
  { s with draining := [] }.setCaller t (.closing s.draining next)

-- The sweep in `_existing_conn` takes those whose reader has ended.
def sweep (s : State ε δ) : State ε δ :=
  { s with draining := s.draining.filter fun i => (s.conns i).reading }

def dead (s : State ε δ) : List Nat := s.draining.filter fun i => !(s.conns i).reading

def existingConn (s : State ε δ) (t : Nat) (key : Key) : State ε δ :=
  if s.pooled key = [] then s.sweep.setCaller t (.closing s.dead (.hand none))
  else
    let swept := s.sweep.evictClosed key
    match swept.available key with
    | none => swept.setCaller t (.closing s.dead (.hand none))
    | some i => (swept.acquire i).setCaller t (.closing s.dead (.hand (some i)))

-- One round of the loop in `_get_conn`.
def scan (s : State ε δ) (t : Nat) (key : Key) : State ε δ :=
  let evicted := s.evictClosed key
  match evicted.available key with
  | some i => (evicted.acquire i).setCaller t (.holding i)
  | none =>
      if key ∈ s.creating then evicted.setCaller t (.waiting key)
      else { evicted with creating := key :: s.creating }.setCaller t (.connecting key)

def connect (hp : Hpack ε δ) (s : State ε δ) (t : Nat) (key : Key) : Connect → State ε δ
  | .failed | .http1 => s.setCaller t (.leaving key none)
  | .h2 fate =>
      { s.setConn s.made (.init hp fate) with made := s.made + 1 }.setCaller t (.fresh key s.made)

def insert (s : State ε δ) (t : Nat) (key : Key) (i : Nat) : State ε δ :=
  (s.setPooled key (s.pooled key ++ [i])).setCaller t (.leaving key (some i))

-- With a connection in hand a caller goes on to send.
def hand (s : State ε δ) (t : Nat) : Option Nat → State ε δ
  | none => s.setCaller t .idle
  | some i => s.setCaller t (.holding i)

def proceed (s : State ε δ) (t : Nat) : Next → State ε δ
  | .scan key => s.setCaller t (.scanning key)
  | .clear => s.setCaller t .clearing
  | .hand conn => s.hand t conn

def send (hp : Hpack ε δ) (s : State ε δ) (t : Nat) (i : Nat) (args : SendArgs) : State ε δ :=
  match (s.conns i).send hp args with
  | (c, .error _) => (s.setConn i c).setCaller t .idle
  | (c, .ok sid) => (s.setConn i c).setCaller t (.pending i sid)

-- A request that was woken returns what its stream object holds.
def finish (s : State ε δ) (t i sid : Nat) : State ε δ :=
  { s.setConn i ((s.conns i).pop sid) with
    returned := s.returned ++ [(i, sid, Conn.outcome ((s.conns i).obj sid))] }.setCaller t .idle

-- An event on a connection that has been made.
def event (hp : Hpack ε δ) (s : State ε δ) (i : Nat) (e : Event) : Option (State ε δ) :=
  if i < s.made then (H2.step hp (s.conns i) e).map (s.setConn i) else none

def step (hp : Hpack ε δ) (s : State ε δ) : Act → Option (State ε δ)
  | .existingConn t key =>
      match s.caller t with
      | .idle => some (s.existingConn t key)
      | _ => none
  | .getConn t key =>
      match s.caller t with
      | .idle => some (s.reap t (.scan key))
      | _ => none
  | .close t =>
      match s.caller t with
      | .idle => some (s.reap t .clear)
      | _ => none
  | .closeNext t =>
      match s.caller t with
      | .closing (i :: todo) next =>
          some ((s.setConn i (s.conns i).close).setCaller t (.closing todo next))
      | .closing [] next => some (s.proceed t next)
      | _ => none
  | .clear t =>
      match s.caller t with
      | .clearing =>
          some ({ s with pool := .empty }.setCaller t (.closing s.pool.values.flatten (.hand none)))
      | _ => none
  | .scan t =>
      match s.caller t with
      | .scanning key => some (s.scan t key)
      | _ => none
  | .wake t =>
      match s.caller t with
      | .waiting key => some (s.setCaller t (.scanning key))
      | _ => none
  | .connect t outcome =>
      match s.caller t with
      | .connecting key => some (s.connect hp t key outcome)
      | _ => none
  | .acquire t =>
      match s.caller t with
      | .fresh key i => some ((s.acquire i).setCaller t (.acquired key i))
      | _ => none
  | .insert t =>
      match s.caller t with
      | .acquired key i => some (s.insert t key i)
      | _ => none
  | .leave t =>
      match s.caller t with
      | .leaving key conn => some ({ s with creating := s.creating.erase key }.hand t conn)
      | _ => none
  | .send t args =>
      match s.caller t with
      | .holding i => some (s.send hp t i args)
      | _ => none
  | .abandon t =>
      match s.caller t with
      | .holding _ => some (s.setCaller t .idle)
      | _ => none
  | .done t =>
      match s.caller t with
      | .pending i sid => if ((s.conns i).obj sid).done then some (s.setCaller t (.woken i sid)) else none
      | _ => none
  | .expire t =>
      match s.caller t with
      | .pending i sid => some ((s.setConn i ((s.conns i).sendRst sid)).setCaller t (.expired i sid))
      | _ => none
  | .pop t =>
      match s.caller t with
      | .woken i sid => some (s.finish t i sid)
      | .expired i sid => some ((s.setConn i ((s.conns i).pop sid)).setCaller t .idle)
      | _ => none
  | .frame i f =>
      (s.event hp i (.frame f)).map fun s =>
        { s with received := Function.update s.received i (s.received i ++ [f]) }
  | .eof i => s.event hp i .eof
  | .readTimeout i => s.event hp i .readTimeout

end State

end NeverFox.Pool
