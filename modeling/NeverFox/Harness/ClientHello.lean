import NeverFox.Basic
import NeverFox.Lib.Masking
import NeverFox.Lib.PyText

namespace NeverFox.Harness

-- hashlib, as the hex digests of texts.
structure Digests where
  md5 : String → String
  sha256 : String → String

def isGrease (v : Nat) : Bool :=
  [0x0a0a, 0x1a1a, 0x2a2a, 0x3a3a, 0x4a4a, 0x5a5a, 0x6a6a, 0x7a7a,
    0x8a8a, 0x9a9a, 0xaaaa, 0xbaba, 0xcaca, 0xdada, 0xeaea, 0xfafa].contains v

def verName (version : Nat) : String :=
  if version = 0x0304 then "13"
  else if version = 0x0303 then "12"
  else if version = 0x0302 then "11"
  else if version = 0x0301 then "10"
  else "00"

-- `b[o]`
def octetAt (b : Bytes) (o : Nat) : Except Exn Nat :=
  match b[o]? with
  | some octet => .ok octet.toNat
  | none => .error .indexError

def u16 (b : Bytes) (o : Nat) : Except Exn Nat := do
  let high ← octetAt b o
  let low ← octetAt b (o + 1)
  return high * 2 ^ 8 + low

-- `b[i:j]`
def slice (b : Bytes) (i j : Nat) : Bytes := (b.take j).drop i

-- `[u16(b, start + i) for i in range(0, n, 2)]`
def words (b : Bytes) (start n : Nat) : Except Exn (List Nat) :=
  (List.range ((n + 1) / 2)).mapM fun i => u16 b (start + 2 * i)

-- `list(ed[1:1+ed[0]])`
def countedOctets (ed : Bytes) : Except Exn (List Nat) := do
  let n ← octetAt ed 0
  return (slice ed 1 (1 + n)).map UInt8.toNat

def countedWords (ed : Bytes) : Except Exn (List Nat) := do
  let n ← u16 ed 0
  words ed 2 n

def shortCountedWords (ed : Bytes) : Except Exn (List Nat) := do
  let n ← octetAt ed 0
  words ed 1 n

-- The loop over the names of the ALPN extension, from `p` on.
def alpnNames : Nat → Bytes → Nat → Except Exn (List String)
  | 0, _, _ => .ok []
  | fuel + 1, ed, p =>
      if p < ed.length then do
        let ln ← octetAt ed p
        let more ← alpnNames fuel ed (p + 1 + ln)
        return String.ofList (PyText.latin1 (slice ed (p + 1) (p + 1 + ln))) :: more
      else .ok []

structure Details where
  supportedGroups : Option (List Nat) := none
  ecPointFormats : Option (List Nat) := none
  signatureAlgorithms : Option (List Nat) := none
  alpn : Option (List String) := none
  supportedVersions : Option (List Nat) := none
  pskKeyExchangeModes : Option (List Nat) := none
  recordSizeLimit : Option Nat := none
  serverNamePresent : Bool := false
  sniHost : Option String := none
  keyShareGroups : Option (List Nat) := none
  certCompressionAlgs : Option (List Nat) := none
  deriving DecidableEq

-- What the loop over the extensions has found. An offset stands with its length.
structure Scan where
  exts : List Nat := []
  details : Details := {}
  keyshareGroups : List Nat := []
  ksKeyOffsets : List (Nat × Nat) := []
  echOffsets : List (Nat × Nat) := []
  deriving DecidableEq

-- The loop over the key shares, from `p` on.
def readShares (ed : Bytes) (bodyOff : Nat) : Nat → Nat → Scan → Except Exn Scan
  | 0, _, scan => .ok scan
  | fuel + 1, p, scan =>
      if p + 4 ≤ ed.length then do
        let grp ← u16 ed p
        let kl ← u16 ed (p + 2)
        readShares ed bodyOff fuel (p + 4 + kl)
          { scan with
            keyshareGroups := scan.keyshareGroups ++ [grp]
            ksKeyOffsets := scan.ksKeyOffsets ++ [(bodyOff + p + 4, kl)] }
      else .ok scan

-- What is read of one extension by its type.
def readBody (et : Nat) (ed : Bytes) (bodyOff : Nat) (scan : Scan) : Except Exn Scan :=
  let d := scan.details
  if et = 0x000a then
    (countedWords ed).map fun groups => { scan with details := { d with supportedGroups := some groups } }
  else if et = 0x000b then
    (countedOctets ed).map fun formats => { scan with details := { d with ecPointFormats := some formats } }
  else if et = 0x000d then
    (countedWords ed).map fun sigs => { scan with details := { d with signatureAlgorithms := some sigs } }
  else if et = 0x0010 then
    (alpnNames ed.length ed 2).map fun names => { scan with details := { d with alpn := some names } }
  else if et = 0x002b then
    (shortCountedWords ed).map fun vers => { scan with details := { d with supportedVersions := some vers } }
  else if et = 0x002d then
    (countedOctets ed).map fun modes => { scan with details := { d with pskKeyExchangeModes := some modes } }
  else if et = 0x001c then
    (u16 ed 0).map fun limit => { scan with details := { d with recordSizeLimit := some limit } }
  else if et = 0x0000 then
    let host := if 5 ≤ ed.length then some (String.ofList (PyText.latin1 (ed.drop 5))) else d.sniHost
    .ok { scan with details := { d with serverNamePresent := true, sniHost := host } }
  else if et = 0x0033 then
    (readShares ed bodyOff ed.length 2 scan).map fun scan =>
      { scan with details := { scan.details with keyShareGroups := some scan.keyshareGroups } }
  else if et = 0x001b then
    (shortCountedWords ed).map fun algs =>
      { scan with details := { d with certCompressionAlgs := some algs } }
  else .ok scan

-- One pass of the loop over the extensions.
def readExtension (hs : Bytes) (o : Nat) (scan : Scan) : Except Exn (Nat × Scan) := do
  let et ← u16 hs o
  let el ← u16 hs (o + 2)
  let ed := slice hs (o + 4) (o + 4 + el)
  let scan := { scan with exts := scan.exts ++ [et] }
  let scan := if et = 0xfe0d then { scan with echOffsets := scan.echOffsets ++ [(o + 4, el)] } else scan
  let scan ← readBody et ed (o + 4) scan
  return (o + 4 + el, scan)

-- The extensions from `o` to `stop`. Every one takes four octets at least, so the
-- distance is fuel enough.
def readExtensions (hs : Bytes) (stop : Nat) : Nat → Nat → Scan → Except Exn Scan
  | 0, _, scan => .ok scan
  | fuel + 1, o, scan =>
      if o < stop then do
        let (o, scan) ← readExtension hs o scan
        readExtensions hs stop fuel o scan
      else .ok scan

structure Fingerprints where
  ja3 : String
  ja3Str : String
  ja3Nogrease : String
  ja3NogreaseStr : String
  ja4 : String
  ja4R : String
  deriving DecidableEq

structure Offsets where
  random : Nat × Nat
  sessionId : Nat × Nat
  keyShareKeys : List (Nat × Nat)
  ech : List (Nat × Nat)
  deriving DecidableEq

-- In the order in which `normalized_hex` goes through them.
def Offsets.spots (o : Offsets) : List (Nat × Nat) := o.random :: o.sessionId :: (o.keyShareKeys ++ o.ech)

structure Parsed where
  legacyVersion : Nat
  cipherSuites : List Nat
  extensions : List Nat
  details : Details
  offsets : Offsets
  rawHex : List Char
  deriving DecidableEq

def hexDigits (b : UInt8) : List Char := [(b.toNat / 16).digitChar, (b.toNat % 16).digitChar]

-- `bytes.hex`
def hex (data : Bytes) : List Char := data.flatMap hexDigits

-- `bytes.fromhex`, which passes over blanks between octets.
def fromHex : List Char → Option Bytes
  | [] => some []
  | c :: rest =>
      if PyText.isAsciiSpace c then fromHex rest
      else match rest with
        | [] => none
        | d :: rest =>
            if PyText.isDigit 16 c && PyText.isDigit 16 d then
              (fromHex rest).map fun data =>
                UInt8.ofNat ((PyText.digitValue c).getD 0 * 16 + (PyText.digitValue d).getD 0) :: data
            else none

-- "%04x"
def hex4 (n : Nat) : String :=
  String.ofList (hexDigits (UInt8.ofNat (n / 2 ^ 8)) ++ hexDigits (UInt8.ofNat n))

-- `:02d` below a hundred
def dec2 (n : Nat) : String := String.ofList [(n / 10).digitChar, (n % 10).digitChar]

def dashed (values : List Nat) : String := "-".intercalate (values.map toString)

def sorted (texts : List String) : List String := texts.mergeSort fun a b => decide (a ≤ b)

-- `digest[:12]`
def short (digest : String) : String := String.ofList (digest.toList.take 12)

def ja3Text (version : Nat) (ciphers exts groups pts : List Nat) : String :=
  s!"{version},{dashed ciphers},{dashed exts},{dashed groups},{dashed pts}"

-- `(alpn[0][0]+alpn[0][-1]) if alpn else "00"`
def alpnMark : List String → Except Exn String
  | [] => .ok "00"
  | name :: _ =>
      match name.toList with
      | [] => .error .indexError
      | c :: rest => .ok (String.ofList [c, rest.getLastD c])

-- `_fingerprints`
def fingerprints (digests : Digests) (p : Parsed) : Except Exn Fingerprints := do
  let plain := List.filter fun v => !isGrease v
  let groups := p.details.supportedGroups.getD []
  let pts := p.details.ecPointFormats.getD []
  let sigs := p.details.signatureAlgorithms.getD []
  let ja3 := ja3Text p.legacyVersion p.cipherSuites p.extensions groups pts
  let ja3Ng := ja3Text p.legacyVersion (plain p.cipherSuites) (plain p.extensions) (plain groups) pts
  let sv := plain (p.details.supportedVersions.getD [])
  let ver := verName (if sv = [] then p.legacyVersion else sv.foldl max 0)
  let sni := if p.details.serverNamePresent then "d" else "i"
  let nc := min (plain p.cipherSuites).length 99
  let ne := min (plain p.extensions).length 99
  let a ← alpnMark (p.details.alpn.getD [])
  let ja4A := s!"t{ver}{sni}{dec2 nc}{dec2 ne}{a}"
  let raw := (plain p.cipherSuites).map hex4
  let ch := sorted raw
  let ja4B := if ch = [] then "000000000000" else short (digests.sha256 (",".intercalate ch))
  let eh := sorted (((plain p.extensions).filter fun e => e ≠ 0x0000 ∧ e ≠ 0x0010).map hex4)
  let raw := ",".intercalate raw
  let eh := ",".intercalate eh
  let sg := ",".intercalate (sigs.map hex4)
  let ja4C := short (digests.sha256 s!"{eh}_{sg}")
  return {
    ja3 := digests.md5 ja3
    ja3Str := ja3
    ja3Nogrease := digests.md5 ja3Ng
    ja3NogreaseStr := ja3Ng
    ja4 := s!"{ja4A}_{ja4B}_{ja4C}"
    ja4R := s!"{ja4A}_{raw}_{eh}_{sg}" }

-- `parse_client_hello`. The second part is what `_fingerprints` adds.
def parseClientHello (digests : Digests) (hs : Bytes) : Except Exn (Parsed × Fingerprints) := do
  let kind ← octetAt hs 0
  if kind ≠ 1 then throw .otherError
  let version ← u16 hs 4
  let sidLen ← octetAt hs 38
  let o := 39 + sidLen
  let csLen ← u16 hs o
  let ciphers ← words hs (o + 2) csLen
  let o := o + 2 + csLen
  let compLen ← octetAt hs o
  let o := o + 1 + compLen
  let extTotal ← u16 hs o
  let scan ← readExtensions hs (o + 2 + extTotal) extTotal (o + 2) {}
  let parsed : Parsed := {
    legacyVersion := version
    cipherSuites := ciphers
    extensions := scan.exts
    details := scan.details
    offsets := ⟨(6, 32), (39, sidLen), scan.ksKeyOffsets, scan.echOffsets⟩
    rawHex := hex hs }
  let prints ← fingerprints digests parsed
  return (parsed, prints)

-- `normalized_hex`
def normalizedHex (p : Parsed) : Except Exn (List Char) :=
  match fromHex p.rawHex with
  | none => .error .valueError
  | some b => .ok (hex (p.offsets.spots.foldl (Masking.blank 0) b))

end NeverFox.Harness
