import NeverFox.Basic

namespace NeverFox.H2

-- struct.pack(">I", n), for the operands that pack accepts.
def packU32 (n : Nat) : Bytes :=
  [UInt8.ofNat (n / 2 ^ 24), UInt8.ofNat (n / 2 ^ 16), UInt8.ofNat (n / 2 ^ 8), UInt8.ofNat n]

def unpackU32 : Bytes → Nat
  | a :: b :: c :: d :: _ => a.toNat * 2 ^ 24 + b.toNat * 2 ^ 16 + c.toNat * 2 ^ 8 + d.toNat
  | _ => 0

theorem unpackU32_packU32 (n : Nat) (hn : n < 2 ^ 32) : unpackU32 (packU32 n) = n := by
  simp only [packU32, unpackU32, UInt8.toNat_ofNat']
  omega

-- struct.pack(">H", n).
def packU16 (n : Nat) : Bytes := [UInt8.ofNat (n / 2 ^ 8), UInt8.ofNat n]

inductive FrameType
  | data
  | headers
  | rst
  | settings
  | ping
  | goaway
  | windowUpdate
  | continuation
  | unknown (code : UInt8)
  deriving DecidableEq, Repr

def FrameType.code : FrameType → UInt8
  | .data => 0
  | .headers => 1
  | .rst => 3
  | .settings => 4
  | .ping => 6
  | .goaway => 7
  | .windowUpdate => 8
  | .continuation => 9
  | .unknown code => code

def FrameType.ofCode (code : UInt8) : FrameType :=
  if code = 0 then .data
  else if code = 1 then .headers
  else if code = 3 then .rst
  else if code = 4 then .settings
  else if code = 6 then .ping
  else if code = 7 then .goaway
  else if code = 8 then .windowUpdate
  else if code = 9 then .continuation
  else .unknown code

def F_END_STREAM : UInt8 := 0x1
def F_ACK : UInt8 := 0x1
def F_END_HEADERS : UInt8 := 0x4
def F_PRIORITY : UInt8 := 0x20

def E_CANCEL : Nat := 0x8
def MAX_FRAME : Nat := 16384
def FF_SETTINGS : List (Nat × Nat) := [(0x1, 65536), (0x2, 0), (0x4, 131072), (0x5, 16384)]
def FF_CONN_WINDOW_INCREMENT : Nat := 12517377
def FF_HEADERS_PRIORITY : Bytes := packU32 0 ++ [41]

-- The four fields a frame header and its payload carry; `encode` is `_frame`.
structure Frame where
  ftype : FrameType
  flags : UInt8
  sid : Nat
  payload : Bytes
  deriving DecidableEq, Repr

def Frame.encode (f : Frame) : Bytes :=
  (packU32 f.payload.length).drop 1 ++ [f.ftype.code, f.flags] ++ packU32 f.sid ++ f.payload

-- Both struct.pack calls of `_frame` accept their operand.
def Frame.packs (f : Frame) : Bool := f.payload.length < 2 ^ 32 && f.sid < 2 ^ 32

def Frame.has (f : Frame) (mask : UInt8) : Bool := f.flags &&& mask != 0

def Frame.endStream (f : Frame) : Bool := f.has F_END_STREAM

def Frame.endHeaders (f : Frame) : Bool := f.has F_END_HEADERS

def windowUpdate (sid increment : Nat) : Frame := ⟨.windowUpdate, 0, sid, packU32 increment⟩

def rstStream (sid code : Nat) : Frame := ⟨.rst, 0, sid, packU32 code⟩

def settingsAck : Frame := ⟨.settings, F_ACK, 0, []⟩

def pingAck (payload : Bytes) : Frame := ⟨.ping, F_ACK, 0, payload⟩

-- The frames written behind the preface when a connection is made.
def openingFrames : List Frame :=
  [⟨.settings, 0, 0, FF_SETTINGS.flatMap fun s => packU16 s.1 ++ packU32 s.2⟩,
    windowUpdate 0 FF_CONN_WINDOW_INCREMENT]

-- The increment a WINDOW_UPDATE grants on the connection, zero for any other frame.
def Frame.connectionCredit (f : Frame) : Nat :=
  if f.ftype = .windowUpdate ∧ f.sid = 0 then unpackU32 f.payload else 0

-- The payload octets of a DATA frame, all of which flow control counts.
def Frame.dataLength (f : Frame) : Nat := if f.ftype = .data then f.payload.length else 0

end NeverFox.H2
