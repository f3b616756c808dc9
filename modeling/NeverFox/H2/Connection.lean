import NeverFox.H2.Frame
import NeverFox.Lib.PyText
import NeverFox.Lib.Run
import Mathlib.Logic.Function.Basic

namespace NeverFox.H2

-- The hpack package: an encoder and a decoder, both stateful. An encode that
-- raises may have changed the dynamic table before it did.
structure Hpack (ε δ : Type) where
  encoder : ε
  decoder : δ
  encode : ε → List Header → ε × Except Exn Bytes
  decode : δ → Bytes → δ × Except Exn (List Header)

-- The `_Stream` object of a request.
structure Stream where
  status : Option Int := none
  headers : List Header := []
  chunks : List Bytes := []
  done : Bool := false
  error : Option Exn := none
  sid : Nat := 0
  nbytes : Nat := 0
  maxBytes : Nat := 0

-- One call of Transport.write. `cut` is `some n` when the call raised after
-- n octets had gone out.
structure Write where
  frames : List Frame
  cut : Option Nat

-- `fate` decides what becomes of each write, in the order they are made.
-- `live` is whether the native handle still exists.
structure Transport where
  fate : Nat → Option Nat
  log : List Write
  stop : Bool := false
  live : Bool := true

-- `streams` lists the keys of `_streams` in insertion order, and `obj` holds
-- the object of every id ever used: a caller keeps it after `_pop`.
-- `reading` is whether the reader thread is alive.
structure Conn (ε δ : Type) where
  tp : Transport
  enc : ε
  dec : δ
  streams : List Nat := []
  obj : Nat → Stream := fun _ => {}
  nextId : Nat := 1
  closed : Bool := false
  closing : Bool := false
  maxConcurrent : Nat := 100
  goawayLast : Nat := 2 ^ 31
  refs : Nat := 0
  hsid : Option Nat := none
  hbuf : Bytes := []
  hend : Bool := false
  reading : Bool := true

variable {ε δ : Type}

namespace Conn

-- The state once the constructor's opening write has gone out.
def init (hp : Hpack ε δ) (fate : Nat → Option Nat) : Conn ε δ :=
  { tp := { fate := fate, log := [⟨openingFrames, none⟩] }, enc := hp.encoder, dec := hp.decoder }

-- Each function below returns the state it leaves and the exception it raises.
def write (c : Conn ε δ) (frames : List Frame) : Conn ε δ × Option Exn :=
  let cut := c.tp.fate c.tp.log.length
  ({ c with tp := { c.tp with log := c.tp.log ++ [⟨frames, cut⟩] } },
    cut.map fun _ => .ioError "fxtls_write failed")

def modify (c : Conn ε δ) (sid : Nat) (f : Stream → Stream) : Conn ε δ :=
  { c with obj := Function.update c.obj sid (f (c.obj sid)) }

def finish (c : Conn ε δ) (sid : Nat) : Conn ε δ := c.modify sid fun st => { st with done := true }

-- `st.error = exc; self._finish(st)`.
def fail (c : Conn ε δ) (sid : Nat) (exc : Exn) : Conn ε δ :=
  c.modify sid fun st => { st with error := some exc, done := true }

-- The loops of `_fail_all` and of GOAWAY over a snapshot of the stream table.
def failItems (c : Conn ε δ) (exc : Exn) (pick : Nat → Bool) (items : List Nat) : Conn ε δ :=
  items.foldl (fun c sid => if pick sid && !(c.obj sid).done then c.fail sid exc else c) c

def failAll (c : Conn ε δ) (exc : Exn) : Conn ε δ :=
  let c := { c with closed := true }
  c.failItems exc (fun _ => true) c.streams

def sendRst (c : Conn ε δ) (sid : Nat) : Conn ε δ :=
  if c.closed || c.closing then c else (c.write [rstStream sid E_CANCEL]).1

-- The loop over the decoded fields. A status that int() rejects raises with
-- the fields before it already stored.
def storeFields : Stream → List Header → Stream × Option Exn
  | st, [] => (st, none)
  | st, (name, value) :: rest =>
      if name = ":status" then
        match PyText.intOfStr 10 value.toList with
        | some status => storeFields { st with status := some status } rest
        | none => (st, some .valueError)
      else storeFields { st with headers := st.headers ++ [(name, value)] } rest

def resetBlock (c : Conn ε δ) : Conn ε δ := { c with hsid := none, hbuf := [], hend := false }

def finishHeaders (hp : Hpack ε δ) (c : Conn ε δ) : Conn ε δ × Option Exn :=
  match c.hsid.filter (· ∈ c.streams) with
  | none => (c.resetBlock, none)
  | some sid =>
      let (dec, result) := hp.decode c.dec c.hbuf
      let c := { c with dec := dec }
      match result with
      | .error exc => (c, some exc)
      | .ok fields =>
          let (st, raised) := storeFields (c.obj sid) fields
          let c := c.modify sid fun _ => st
          match raised with
          | some exc => (c, some exc)
          | none => ((if c.hend then c.finish sid else c).resetBlock, none)

def onHeaders (hp : Hpack ε δ) (c : Conn ε δ) (f : Frame) : Conn ε δ × Option Exn :=
  let c := { c with hsid := some f.sid, hbuf := f.payload, hend := f.endStream }
  if f.endHeaders then c.finishHeaders hp else (c, none)

def onContinuation (hp : Hpack ε δ) (c : Conn ε δ) (f : Frame) : Conn ε δ × Option Exn :=
  let c := { c with hbuf := c.hbuf ++ f.payload }
  if f.endHeaders then c.finishHeaders hp else (c, none)

-- Credit for the connection always, for the stream only while it is open.
def dataCredit (f : Frame) : List Frame :=
  windowUpdate 0 f.payload.length ::
    if f.endStream then [] else [windowUpdate f.sid f.payload.length]

def capError (cap : Nat) : Exn := .connectionError s!"response exceeded max_response_bytes ({cap})"

-- What the DATA branch does after the chunk is stored and credited.
def settleData (c : Conn ε δ) (f : Frame) : Conn ε δ :=
  let st := c.obj f.sid
  if st.maxBytes ≠ 0 ∧ st.maxBytes < st.nbytes then
    (c.sendRst f.sid).fail f.sid (capError st.maxBytes)
  else if f.endStream then c.finish f.sid
  else c

def addChunk (c : Conn ε δ) (f : Frame) : Conn ε δ :=
  c.modify f.sid fun st =>
    { st with chunks := st.chunks ++ [f.payload], nbytes := st.nbytes + f.payload.length }

def onData (c : Conn ε δ) (f : Frame) : Conn ε δ × Option Exn :=
  if f.sid ∈ c.streams ∧ (c.obj f.sid).done = false then
    let c := c.addChunk f
    let (c, raised) := if f.payload = [] then (c, none) else c.write (dataCredit f)
    match raised with
    | some exc => (c, some exc)
    | none => (c.settleData f, none)
  else (c, none)

-- MAX_CONCURRENT_STREAMS out of the six-octet entries of a SETTINGS payload.
def readSettings : Bytes → Nat → Nat × Option Exn
  | hi :: lo :: a :: b :: c :: d :: rest, limit =>
      readSettings rest (if hi.toNat * 256 + lo.toNat = 3 then unpackU32 [a, b, c, d] else limit)
  | hi :: lo :: _, limit =>
      (limit, if hi.toNat * 256 + lo.toNat = 3 then some .structError else none)
  | [_], limit => (limit, some .indexError)
  | [], limit => (limit, none)

def onSettings (c : Conn ε δ) (f : Frame) : Conn ε δ × Option Exn :=
  if f.has F_ACK then (c, none)
  else
    let (limit, raised) := readSettings f.payload c.maxConcurrent
    let c := { c with maxConcurrent := limit }
    match raised with
    | some exc => (c, some exc)
    | none => c.write [settingsAck]

def onPing (c : Conn ε δ) (f : Frame) : Conn ε δ × Option Exn :=
  if f.has F_ACK then (c, none) else c.write [pingAck f.payload]

def goawayLastSid (f : Frame) : Nat :=
  if 4 ≤ f.payload.length then unpackU32 f.payload % 2 ^ 31 else 0

def goawayError (f : Frame) : Exn :=
  let code : Int := if 8 ≤ f.payload.length then unpackU32 (f.payload.drop 4) else -1
  .connectionError s!"GOAWAY code={code}"

def markGoaway (c : Conn ε δ) (f : Frame) : Conn ε δ :=
  { c with goawayLast := goawayLastSid f, closed := true }

-- Only the streams the server will not process fail.
def onGoaway (c : Conn ε δ) (f : Frame) : Conn ε δ :=
  let c := c.markGoaway f
  c.failItems (goawayError f) (fun sid => goawayLastSid f < sid) c.streams

def onRst (c : Conn ε δ) (f : Frame) : Conn ε δ :=
  if f.sid ∈ c.streams ∧ (c.obj f.sid).done = false then
    c.fail f.sid (.connectionError "RST_STREAM")
  else c

def dispatch (hp : Hpack ε δ) (c : Conn ε δ) (f : Frame) : Conn ε δ × Option Exn :=
  match f.ftype with
  | .headers => c.onHeaders hp f
  | .continuation => c.onContinuation hp f
  | .data => c.onData f
  | .settings => c.onSettings f
  | .ping => c.onPing f
  | .goaway => (c.onGoaway f, none)
  | .rst => (c.onRst f, none)
  | .windowUpdate | .unknown _ => (c, none)

-- The end of `_read_loop`: pending streams fail, and the same thread frees
-- the handle.
def exitReader (c : Conn ε δ) (exc : Exn) : Conn ε δ :=
  let c := c.failAll exc
  { c with reading := false, tp := { c.tp with live := false } }

def readFrame (hp : Hpack ε δ) (c : Conn ε δ) (f : Frame) : Conn ε δ :=
  match c.dispatch hp f with
  | (c, none) => c
  | (c, some exc) => c.exitReader exc

def peerClosed : Exn := .connectionError "connection closed by peer"

-- A read that timed out is retried unless the stop flag is set.
def readTimeout (c : Conn ε δ) : Conn ε δ := if c.tp.stop then c.exitReader peerClosed else c

def active (c : Conn ε δ) : Nat := c.streams.length

def acquirable (c : Conn ε δ) : Bool :=
  !(c.closed || c.closing || c.goawayLast < c.nextId || c.maxConcurrent ≤ c.streams.length)

def acquire (c : Conn ε δ) : Conn ε δ := if c.acquirable then { c with refs := c.refs + 1 } else c

def release (c : Conn ε δ) : Conn ε δ := { c with refs := c.refs - 1 }

def pop (c : Conn ε δ) (sid : Nat) : Conn ε δ := { c with streams := c.streams.erase sid }

-- With a live reader close() only asks it to stop; else it cleans up itself.
def close (c : Conn ε δ) : Conn ε δ :=
  if c.closing then c
  else
    let c := { c with closing := true, closed := true, tp := { c.tp with stop := true } }
    if c.reading then c
    else
      let c := c.failAll (.connectionError "connection closed")
      { c with tp := { c.tp with live := false } }

end Conn

-- A header name is `none` when it has no `lower` method.
structure SendArgs where
  method : String
  path : String
  authority : String
  headers : List (Option String × String)
  body : Body
  maxBytes : Nat := 0

def lowerNames : List (Option String × String) → Option (List Header)
  | [] => some []
  | (none, _) :: _ => none
  | (some name, value) :: rest => (lowerNames rest).map ((PyText.lower name, value) :: ·)

def SendArgs.fields (args : SendArgs) : Option (List Header) :=
  (lowerNames args.headers).map fun fields =>
    [(":method", args.method), (":path", args.path), (":authority", args.authority),
      (":scheme", "https")] ++ fields

-- Stream 1 carries the priority fields in front of its block.
def headersFrame (sid : Nat) (block : Bytes) (endStream : Bool) : Frame :=
  let fin := if endStream then F_END_STREAM else 0
  if sid = 1 then
    ⟨.headers, F_END_HEADERS ||| F_PRIORITY ||| fin, sid, FF_HEADERS_PRIORITY ++ block⟩
  else ⟨.headers, F_END_HEADERS ||| fin, sid, block⟩

def dataFrames (sid : Nat) (body : Bytes) : List Frame :=
  (List.range ((body.length + MAX_FRAME - 1) / MAX_FRAME)).map fun i =>
    let last := body.length ≤ i * MAX_FRAME + MAX_FRAME
    ⟨.data, if last then F_END_STREAM else 0, sid, (body.drop (i * MAX_FRAME)).take MAX_FRAME⟩

namespace Conn

def allocate (c : Conn ε δ) : Conn ε δ := { c with nextId := c.nextId + 2 }

def register (c : Conn ε δ) (sid maxBytes : Nat) : Conn ε δ :=
  { c with
    streams := if sid ∈ c.streams then c.streams else c.streams ++ [sid]
    obj := Function.update c.obj sid { sid := sid, maxBytes := maxBytes } }

def setEncoder (c : Conn ε δ) (enc : ε) : Conn ε δ := { c with enc := enc }

-- Encode, build every frame, and write them in one go.
def emit (hp : Hpack ε δ) (c : Conn ε δ) (sid : Nat) (fields : List Header) (body : Body) :
    Conn ε δ × Option Exn :=
  let (enc, result) := hp.encode c.enc fields
  let c := c.setEncoder enc
  match result with
  | .error exc => (c, some exc)
  | .ok block =>
      let head := headersFrame sid block (!body.truthy)
      if head.packs then
        match body with
        | .other _ => (c, some .typeError)
        | .bytes data => c.write (head :: dataFrames sid data)
      else (c, some .structError)

def trySend (hp : Hpack ε δ) (c : Conn ε δ) (args : SendArgs) : Conn ε δ × Except Exn Nat :=
  if c.closed then (c, .error (.connectionError "h2 connection closed"))
  else match args.fields with
    | none => (c, .error .attributeError)
    | some fields =>
        let sid := c.nextId
        match (c.allocate.register sid args.maxBytes).emit hp sid fields args.body with
        | (c, none) => (c, .ok sid)
        | (c, some exc) => (c, .error exc)

-- `_send`: the caller's reference goes whatever happens.
def send (hp : Hpack ε δ) (c : Conn ε δ) (args : SendArgs) : Conn ε δ × Except Exn Nat :=
  let (c, result) := c.trySend hp args
  (c.release, result)

end Conn

-- What can happen to a connection, each under the locks the code takes.
inductive Event
  | frame (f : Frame)
  | eof
  | readTimeout
  | acquire
  | send (args : SendArgs)
  | rst (sid : Nat)
  | pop (sid : Nat)
  | close

-- The reader cuts the length out of three octets and masks the stream id.
def Frame.onWire (f : Frame) : Prop := f.payload.length < 2 ^ 24 ∧ f.sid < 2 ^ 31

instance (f : Frame) : Decidable f.onWire := inferInstanceAs (Decidable (_ ∧ _))

def step (hp : Hpack ε δ) (c : Conn ε δ) : Event → Option (Conn ε δ)
  | .frame f => if c.reading ∧ f.onWire then some (c.readFrame hp f) else none
  | .eof => if c.reading then some (c.exitReader Conn.peerClosed) else none
  | .readTimeout => if c.reading then some c.readTimeout else none
  | .acquire => some c.acquire
  | .send args => some (c.send hp args).1
  | .rst sid => some (c.sendRst sid)
  | .pop sid => some (c.pop sid)
  | .close => some c.close

def framesOf (events : List Event) : List Frame :=
  events.filterMap fun e => match e with
    | .frame f => some f
    | _ => none

end NeverFox.H2
