import Mathlib.Data.List.Infix
import NeverFox.Basic
import NeverFox.Lib.PyText
import NeverFox.Lib.Utf8

namespace NeverFox.H3

-- Where `str.splitlines` breaks a text. A line feed behind a carriage return
-- belongs to the same break.
def isBreak (c : Char) : Bool :=
  (0x0a ≤ c.toNat && c.toNat ≤ 0x0d) || (0x1c ≤ c.toNat && c.toNat ≤ 0x1e) || c.toNat = 0x85 ||
    c.toNat = 0x2028 || c.toNat = 0x2029

def splitlines : List Char → List (List Char)
  | [] => []
  | '\r' :: '\n' :: rest => [] :: splitlines rest
  | c :: rest =>
      if isBreak c then [] :: splitlines rest
      else
        match splitlines rest with
        | [] => [[c]]
        | line :: lines => (c :: line) :: lines

-- The second group of `_HDR_RE`, without its brackets or its quotes.
inductive RawValue
  | list (inner : List Char)
  | quoted (inner : List Char)
  deriving DecidableEq

-- `(?:[^"\\]|\\.)*` and the quote behind it. No choice is left to the matcher: the
-- two alternatives begin differently, and neither begins with the quote.
def scanQuoted : List Char → Option (List Char × List Char)
  | [] => none
  | c :: rest =>
      if c = '"' then some ([], rest)
      else if c = '\\' then
        match rest with
        | [] => none
        | d :: rest =>
            if d = '\n' then none
            else (scanQuoted rest).map fun (inner, rest) => (c :: d :: inner, rest)
      else (scanQuoted rest).map fun (inner, rest) => (c :: inner, rest)

-- `[^\]]*` and the bracket behind it.
def scanList : List Char → Option (List Char × List Char)
  | [] => none
  | c :: rest =>
      if c = ']' then some ([], rest) else (scanList rest).map fun (inner, rest) => (c :: inner, rest)

def literal (word text : List Char) : Option (List Char) :=
  if word <+: text then some (text.drop word.length) else none

def scanValue : List Char → Option (RawValue × List Char)
  | '[' :: text => (scanList text).map fun (inner, rest) => (.list inner, rest)
  | '"' :: text => (scanQuoted text).map fun (inner, rest) => (.quoted inner, rest)
  | _ => none

-- `_HDR_RE.match`: the two groups, and what is behind the match.
def matchHeader (text : List Char) : Option ((List Char × RawValue) × List Char) := do
  let text ← literal "name:".toList text
  let text ← literal ['"'] (text.dropWhile PyText.isSpace)
  let (name, text) ← scanQuoted text
  let text ← literal [','] (text.dropWhile PyText.isSpace)
  let text ← literal "value:".toList (text.dropWhile PyText.isSpace)
  let (value, text) ← scanValue (text.dropWhile PyText.isSpace)
  return ((name, value), text)

-- `_HDR_RE.findall`. The fuel is the length, since a match takes away some of it.
def findAll : Nat → List Char → List (List Char × RawValue)
  | 0, _ => []
  | _ + 1, [] => []
  | fuel + 1, c :: rest =>
      match matchHeader (c :: rest) with
      | some (header, rest) => header :: findAll fuel rest
      | none => findAll fuel rest

-- Up to `n` more octal digits, and exactly `n` hexadecimal ones.
def scanOctal : Nat → Nat → Bytes → Nat × Bytes
  | n + 1, value, b :: rest =>
      if 48 ≤ b ∧ b ≤ 55 then scanOctal n (value * 8 + (b.toNat - 48)) rest else (value, b :: rest)
  | _, value, bytes => (value, bytes)

def scanHex : Nat → Nat → Bytes → Option (Nat × Bytes)
  | 0, value, bytes => some (value, bytes)
  | n + 1, value, b :: rest =>
      let c := Char.ofNat b.toNat
      if PyText.isDigit 16 c then scanHex n (value * 16 + (PyText.digitValue c).getD 0) rest else none
  | _ + 1, _, [] => none

-- A code point that an escape names. A lone surrogate, which a text here cannot
-- hold, is kept as a replacement character.
def codePoint (n : Nat) : Option (List Char) :=
  if 0x10ffff < n then none
  else if 0xd800 ≤ n ∧ n ≤ 0xdfff then some [Char.ofNat 0xfffd]
  else some [Char.ofNat n]

-- One escape of the codec unicode_escape, behind its backslash. `named` is what
-- `\N` looks names up in.
def unescapeOne (named : Bytes → Option Char) (e : UInt8) (rest : Bytes) : Option (List Char × Bytes) :=
  if e = 10 then some ([], rest)
  else if e = 92 ∨ e = 39 ∨ e = 34 then some ([Char.ofNat e.toNat], rest)
  else if e = 98 then some (['\x08'], rest)
  else if e = 102 then some (['\x0c'], rest)
  else if e = 116 then some (['\t'], rest)
  else if e = 110 then some (['\n'], rest)
  else if e = 114 then some (['\r'], rest)
  else if e = 118 then some (['\x0b'], rest)
  else if e = 97 then some (['\x07'], rest)
  else if 48 ≤ e ∧ e ≤ 55 then
    let (value, rest) := scanOctal 2 (e.toNat - 48) rest
    some ([Char.ofNat value], rest)
  else if e = 120 then (scanHex 2 0 rest).bind fun (n, rest) => (codePoint n).map (·, rest)
  else if e = 117 then (scanHex 4 0 rest).bind fun (n, rest) => (codePoint n).map (·, rest)
  else if e = 85 then (scanHex 8 0 rest).bind fun (n, rest) => (codePoint n).map (·, rest)
  else if e = 78 then
    match rest with
    | 123 :: rest =>
        let name := rest.takeWhile (· ≠ 125)
        match rest.drop name.length with
        | _ :: rest => if name = [] then none else (named name).map fun c => ([c], rest)
        | [] => none
    | _ => none
  else some (['\\', Char.ofNat e.toNat], rest)

-- `.decode("unicode_escape")`: octets that are not escaped are Latin-1.
def unicodeEscape (named : Bytes → Option Char) : Nat → Bytes → Option (List Char)
  | 0, _ => some []
  | _ + 1, [] => some []
  | fuel + 1, b :: rest =>
      if b ≠ 92 then (unicodeEscape named fuel rest).map (Char.ofNat b.toNat :: ·)
      else
        match rest with
        | [] => none
        | e :: rest =>
            match unescapeOne named e rest with
            | none => none
            | some (chars, rest) => (unicodeEscape named fuel rest).map (chars ++ ·)

-- `text.encode().decode("unicode_escape")`. A UnicodeDecodeError is a ValueError.
def unescape (named : Bytes → Option Char) (text : List Char) : Except Exn (List Char) :=
  match unicodeEscape named (Utf8.encode text).length (Utf8.encode text) with
  | some chars => .ok chars
  | none => .error .valueError

-- What bytes() makes of int(x): any ValueError is caught.
def octetOf (x : List Char) : Option UInt8 :=
  (PyText.intOfStr 10 x).bind fun n => if 0 ≤ n ∧ n < 256 then some (UInt8.ofNat n.toNat) else none

-- `bytes(int(x) for x in inner.split(",") if x.strip())`
def octetList (inner : List Char) : Option Bytes :=
  ((inner.splitOn ',').filter fun x => PyText.strip PyText.isSpace x ≠ []).mapM octetOf

def readValue (named : Bytes → Option Char) : RawValue → Except Exn (List Char)
  | .list inner => .ok ((octetList inner).elim [] Utf8.decodeReplace)
  | .quoted inner => unescape named inner

def isPseudo (name : List Char) : Bool := [':'] <+: name

-- What a line has said so far: `line_status` and `line_headers`.
structure LineRead where
  status : Option Int := none
  headers : List Header := []
  deriving DecidableEq

def readHeader (named : Bytes → Option Char) (line : LineRead) (found : List Char × RawValue) :
    Except Exn LineRead := do
  let name ← unescape named found.1
  let name := PyText.lowerText name
  let val ← readValue named found.2
  if name = ":status".toList then
    match PyText.intOfStr 10 val with
    | some n => return { line with status := some n }
    | none => return line
  else if isPseudo name then return line
  else return { line with headers := line.headers ++ [(String.ofList name, String.ofList val)] }

def readLine (named : Bytes → Option Char) (line : List Char) : Except Exn LineRead :=
  (findAll line.length line).foldlM (readHeader named) {}

-- A line with a final status replaces what was found before it.
def LineRead.settle (read : LineRead) (found : Option Int × List Header) : Option Int × List Header :=
  match read.status with
  | some n => if 200 ≤ n then (some n, read.headers) else found
  | none => found

def nextLine (named : Bytes → Option Char) (found : Option Int × List Header) (line : List Char) :
    Except Exn (Option Int × List Header) :=
  if "READ HEADERS".toList <:+: line then (readLine named line).map fun read => read.settle found
  else .ok found

-- `_parse_response`
def parseResponse (named : Bytes → Option Char) (stderr : Bytes) : Except Exn (Option Int × List Header) :=
  (splitlines (Utf8.decodeReplace stderr)).foldlM (nextLine named) (none, [])

end NeverFox.H3
