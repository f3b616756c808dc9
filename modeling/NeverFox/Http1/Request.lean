import NeverFox.Http1.Reader
import NeverFox.Lib.PyText
import Mathlib.Data.List.Infix

namespace NeverFox.Http1

-- A connection of one exchange: whether the write of the request raises, and
-- what the receives return.
structure Exchange where
  write : Bytes → Option Exn
  results : List Bytes

def hasName (headers : List Header) (name : String) : Bool :=
  headers.any fun field => PyText.lower field.1 = name

def requestLines (method path authority : String) (headers : List Header) (body : Bytes) :
    List String :=
  [s!"{method} {path} HTTP/1.1", s!"Host: {authority}"] ++
    headers.map (fun field => s!"{field.1}: {field.2}") ++
    (if hasName headers "connection" then [] else ["Connection: keep-alive"]) ++
    if body ≠ [] ∧ hasName headers "content-length" = false then
      [s!"Content-Length: {body.length}"]
    else []

def requestBytes (method path authority : String) (headers : List Header) (body : Bytes) : Bytes :=
  ("\r\n".intercalate (requestLines method path authority headers body) ++ "\r\n\r\n").toUTF8.data.toList ++
    body

-- `body or b""`, which a truthy body that is not octets cannot be joined to.
def octets : Body → Option Bytes
  | .bytes data => some data
  | .other truthy => if truthy then none else some []

-- `int(line.split(b" ")[1])`.
def statusCode (line : Bytes) : Except Exn Int :=
  match (line.splitOn 0x20)[1]? with
  | none => .error .indexError
  | some token =>
      match PyText.intOfBytes 10 token with
      | none => .error .valueError
      | some status => .ok status

def COLON : UInt8 := 0x3a

def trimmed (data : Bytes) : String :=
  String.ofList (PyText.strip PyText.isSpace (PyText.latin1 data))

def parseField (line : Bytes) : Header :=
  (PyText.lower (trimmed (line.takeWhile (· ≠ COLON))), trimmed ((line.dropWhile (· ≠ COLON)).drop 1))

-- `{k: v for k, v in headers}.get(name)`: the last of the fields counts.
def lastValue (headers : List Header) (name : String) : Option String :=
  ((headers.filter fun field => field.1 = name).getLast?).map Prod.snd

def isChunked (headers : List Header) : Bool :=
  "chunked".toList <:+: (PyText.lower ((lastValue headers "transfer-encoding").getD "")).toList

def SEMICOLON : UInt8 := 0x3b

def isBlank (b : UInt8) : Bool := PyText.isAsciiSpace (Char.ofNat b.toNat)

-- `line.split(b";")[0].strip() or b"0"`.
def sizeToken (line : Bytes) : Bytes :=
  let token := ((line.takeWhile (· ≠ SEMICOLON)).dropWhile isBlank).rdropWhile isBlank
  if token = [] then [0x30] else token

def chunkSize (line : Bytes) : Option Int := PyText.intOfBytes 16 (sizeToken line)

-- The loops count down a fuel that `none` says has run out; each is started
-- with more than the octets that are left.
def readHeaders : Nat → Reader → Option (List Header × Reader)
  | 0, _ => none
  | fuel + 1, r =>
      let (line, r) := r.readline
      if line = [] then some ([], r)
      else (readHeaders fuel r).map fun result => (parseField line :: result.1, result.2)

def readTrailers : Nat → Reader → Option Reader
  | 0, _ => none
  | fuel + 1, r =>
      let (line, r) := r.readline
      if line = [] then some r else readTrailers fuel r

def readChunks : Nat → Bytes → Reader → Option (Except Exn (Bytes × Reader))
  | 0, _, _ => none
  | fuel + 1, out, r =>
      let (line, r) := r.readline
      match chunkSize line with
      | none => some (.error .valueError)
      | some size =>
          if size = 0 then (readTrailers (r.size + 1) r).map fun r => .ok (out, r)
          else
            let (data, r) := r.readexact size
            let (_, r) := r.readexact 2
            readChunks fuel (out ++ data) r

def readBody (headers : List Header) (r : Reader) : Option (Except Exn (Bytes × Reader)) :=
  if isChunked headers then readChunks (r.size + 1) [] r
  else
    match lastValue headers "content-length" with
    | some value =>
        match PyText.intOfStr 10 value.toList with
        | some length => some (.ok (r.readexact length))
        | none => some (.error .valueError)
    | none => some (.ok r.readall)

def readResponse (r : Reader) : Option (Except Exn (RawResponse × Reader)) :=
  let (line, r) := r.readline
  match statusCode line with
  | .error exc => some (.error exc)
  | .ok status =>
      match readHeaders (r.size + 1) r with
      | none => none
      | some (headers, r) =>
          (readBody headers r).map fun result =>
            result.map fun body => (⟨some status, headers, body.1⟩, body.2)

def request (tp : Exchange) (method path authority : String) (headers : List Header) (body : Body) :
    Option (Except Exn RawResponse) :=
  match octets body with
  | none => some (.error .typeError)
  | some data =>
      match tp.write (requestBytes method path authority headers data) with
      | some exc => some (.error exc)
      | none => (readResponse ⟨tp.results, []⟩).map fun result => result.map Prod.fst

-- The lines of a header block as the reader meets them.
inductive HeaderLines : Reader → List Header → Reader → Prop
  | blank (r : Reader) (hl : r.readline.1 = []) : HeaderLines r [] r.readline.2
  | field (r r' : Reader) (fields : List Header) (hl : r.readline.1 ≠ [])
      (hr : HeaderLines r.readline.2 fields r') : HeaderLines r (parseField r.readline.1 :: fields) r'

-- The reader after one chunk of the given size.
def Reader.afterChunk (r : Reader) (size : Int) : Reader :=
  ((r.readline.2.readexact size).2.readexact 2).2

-- The chunk loop comes to a size that int() rejects.
inductive ChunkRejected : Reader → Prop
  | now (r : Reader) (hs : chunkSize r.readline.1 = none) : ChunkRejected r
  | later (r : Reader) (size : Int) (hs : chunkSize r.readline.1 = some size) (hz : size ≠ 0)
      (hr : ChunkRejected (r.afterChunk size)) : ChunkRejected r

-- A line that is not empty has used up octets.
theorem size_lt_of_line {r : Reader} (hl : r.readline.1 ≠ []) : r.readline.2.size < r.size := by
  have hsize := r.size_readline
  have hpos := List.length_pos_of_ne_nil hl
  omega

theorem headerLines_exists (r : Reader) : ∃ fields r', HeaderLines r fields r' := by
  by_cases hl : r.readline.1 = []
  · exact ⟨_, _, .blank r hl⟩
  · have hlt := size_lt_of_line hl
    obtain ⟨fields, r', hr⟩ := headerLines_exists r.readline.2
    exact ⟨_, _, .field r r' fields hl hr⟩
termination_by r.size

theorem readHeaders_of_lines {r r' : Reader} {fields : List Header} (h : HeaderLines r fields r')
    (fuel : Nat) (hf : r.size < fuel) : readHeaders fuel r = some (fields, r') := by
  induction h generalizing fuel with
  | blank r hl =>
      obtain ⟨fuel, rfl⟩ := Nat.exists_eq_add_of_lt hf
      simp [readHeaders, hl]
  | field r r' fields hl hr ih =>
      have hlt := size_lt_of_line hl
      obtain ⟨fuel, rfl⟩ : ∃ n, fuel = n + 1 := ⟨fuel - 1, by omega⟩
      simp [readHeaders, hl, ih fuel (by omega)]

theorem readTrailers_total (fuel : Nat) (r : Reader) (hf : r.size < fuel) :
    ∃ r', readTrailers fuel r = some r' := by
  induction fuel generalizing r with
  | zero => omega
  | succ fuel ih =>
      unfold readTrailers
      dsimp only
      split
      · exact ⟨_, rfl⟩
      · rename_i hl
        have hlt := size_lt_of_line hl
        exact ih _ (by omega)

theorem chunkSize_nil : chunkSize [] = some 0 := by decide

theorem size_afterChunk (r : Reader) (size : Int) : (r.afterChunk size).size ≤ r.readline.2.size :=
  Nat.le_trans (Reader.size_readexact _ _) (Reader.size_readexact _ _)

-- With fuel to spare the chunk loop ends, and raises only on a rejected size.
theorem readChunks_total (fuel : Nat) (out : Bytes) (r : Reader) (hf : r.size < fuel) :
    ((∃ body r', readChunks fuel out r = some (.ok (body, r'))) ∧ ¬ChunkRejected r) ∨
      (readChunks fuel out r = some (.error .valueError) ∧ ChunkRejected r) := by
  induction fuel generalizing out r with
  | zero => omega
  | succ fuel ih =>
      unfold readChunks
      dsimp only
      cases hs : chunkSize r.readline.1 with
      | none => exact .inr ⟨rfl, .now r hs⟩
      | some size =>
          dsimp only
          split
          · rename_i hz
            obtain ⟨r', ht⟩ := readTrailers_total _ r.readline.2 (Nat.lt_succ_self _)
            refine .inl ⟨⟨out, r', by rw [ht]; rfl⟩, ?_⟩
            rintro (⟨_, hn⟩ | ⟨_, size', hs', hz', _⟩)
            · simp [hs] at hn
            · exact hz' (by simpa [hs, hz] using hs'.symm)
          · rename_i hz
            have hl : r.readline.1 ≠ [] := by
              intro hl
              rw [hl, chunkSize_nil] at hs
              exact hz (Option.some.inj hs).symm
            have hlt := size_lt_of_line hl
            have hle := size_afterChunk r size
            rcases ih (out ++ (r.readline.2.readexact size).1) (r.afterChunk size) (by omega) with
              ⟨hok, hno⟩ | ⟨herr, hr⟩
            · refine .inl ⟨hok, ?_⟩
              rintro (⟨_, hn⟩ | ⟨_, size', hs', _, hr⟩)
              · simp [hs] at hn
              · obtain rfl : size = size' := by simpa [hs] using hs'
                exact hno hr
            · exact .inr ⟨herr, .later r size hs hz hr⟩

end NeverFox.Http1
