import NeverFox.Basic
import NeverFox.Lib.Dict
import NeverFox.Lib.PyText

namespace NeverFox.Client

-- What a zlib decompressobj does with one body: the output of decompress(),
-- whether input was left over, and what flush() adds.
structure Inflated where
  out : Bytes
  unconsumed : Bool
  flush : Except Exn Bytes

-- The decompressors of zlib, brotli and zstandard. A length is the most that
-- the call may put out.
structure Codecs where
  zlib : Int → Bytes → Option Nat → Except Exn Inflated
  brotli : Bytes → Except Exn Bytes
  zstd : Bytes → Option Nat → Except Exn Bytes

def MAX_WBITS : Int := 15

def decodedTooLong (limit : Nat) : Exn :=
  .httpError s!"decompressed body exceeded max_response_bytes ({limit})"

-- `limit` is zero for none.
def boundedZlib (codecs : Codecs) (body : Bytes) (wbits : Int) (limit : Nat) : Except Exn Bytes :=
  if limit = 0 then do
    let d ← codecs.zlib wbits body none
    let rest ← d.flush
    return d.out ++ rest
  else do
    let d ← codecs.zlib wbits body (some (limit + 1))
    if limit < d.out.length ∨ d.unconsumed then throw (decodedTooLong limit)
    let rest ← d.flush
    if limit < (d.out ++ rest).length then throw (decodedTooLong limit)
    return d.out ++ rest

-- The check that brotli and zstandard share.
def checkLimit (limit : Nat) (out : Bytes) : Except Exn Bytes :=
  if limit ≠ 0 ∧ limit < out.length then .error (decodedTooLong limit) else .ok out

def decoded (codecs : Codecs) (body : Bytes) (enc : String) (limit : Nat) : Except Exn Bytes :=
  if enc = "gzip" then boundedZlib codecs body (16 + MAX_WBITS) limit
  else if enc = "deflate" then
    match boundedZlib codecs body MAX_WBITS limit with
    | .error .zlibError => boundedZlib codecs body (-MAX_WBITS) limit
    | result => result
  else if enc = "br" then (codecs.brotli body).bind (checkLimit limit)
  else if enc = "zstd" then
    (codecs.zstd body (if limit = 0 then none else some (limit + 1))).bind (checkLimit limit)
  else .ok body

-- `_decompress`: only HTTPError gets out, any other failure leaves the raw body.
def decompress (codecs : Codecs) (body : Bytes) (enc : Option String) (limit : Nat) :
    Except Exn Bytes :=
  let enc := PyText.lower (enc.getD "")
  if enc = "" ∨ enc = "identity" then .ok body
  else
    match decoded codecs body enc limit with
    | .error (.httpError message) => .error (.httpError message)
    | .error _ => .ok body
    | .ok out => .ok out

structure Response where
  statusCode : Option Int
  httpVersion : String
  url : String
  rawHeaders : List Header
  headers : Dict String String
  raw : Bytes
  content : Bytes

-- `{k.lower(): v for k, v in headers}`.
def headerDict (headers : List Header) : Dict String String :=
  headers.foldl (fun d field => d.set (PyText.lower field.1) field.2) .empty

def contentEncoding (headers : List Header) : Option String :=
  (headerDict headers).get? "content-encoding"

def Response.make (codecs : Codecs) (raw : RawResponse) (proto url : String) (maxBytes : Nat) :
    Except Exn Response :=
  (decompress codecs raw.body (contentEncoding raw.headers) maxBytes).map fun content =>
    ⟨raw.status, proto, url, raw.headers, headerDict raw.headers, raw.body, content⟩

theorem boundedZlib_length {codecs : Codecs} {body out : Bytes} {wbits : Int} {limit : Nat}
    (hl : limit ≠ 0) (hd : boundedZlib codecs body wbits limit = .ok out) : out.length ≤ limit := by
  unfold boundedZlib at hd
  simp only [hl, ↓reduceIte] at hd
  cases hz : codecs.zlib wbits body (some (limit + 1)) with
  | error exc => simp [hz, bind, Except.bind] at hd
  | ok d =>
      simp only [hz, bind, Except.bind] at hd
      split at hd
      · cases hd
      · cases hf : d.flush with
        | error exc => simp [hf] at hd
        | ok rest =>
            simp only [hf, pure, Except.pure] at hd
            split at hd
            · cases hd
            · rename_i hle
              obtain rfl := Except.ok.inj hd
              omega

theorem checkLimit_length {limit : Nat} {result : Except Exn Bytes} {out : Bytes} (hl : limit ≠ 0)
    (hd : result.bind (checkLimit limit) = .ok out) : out.length ≤ limit := by
  cases result with
  | error exc => cases hd
  | ok body =>
      unfold Except.bind checkLimit at hd
      dsimp only at hd
      split at hd
      · cases hd
      · rename_i hle
        obtain rfl := Except.ok.inj hd
        omega

-- Under a limit every decoder checks what it has put out.
theorem decoded_length {codecs : Codecs} {body out : Bytes} {enc : String} {limit : Nat}
    (hl : limit ≠ 0) (hd : decoded codecs body enc limit = .ok out) :
    out.length ≤ limit ∨ out = body := by
  unfold decoded at hd
  split at hd
  · exact .inl (boundedZlib_length hl hd)
  · split at hd
    · split at hd
      · exact .inl (boundedZlib_length hl hd)
      · exact .inl (boundedZlib_length hl hd)
    · split at hd
      · exact .inl (checkLimit_length hl hd)
      · split at hd
        · exact .inl (checkLimit_length hl hd)
        · exact .inr (Except.ok.inj hd).symm

theorem decompress_length {codecs : Codecs} {body out : Bytes} {enc : Option String} {limit : Nat}
    (hl : limit ≠ 0) (hd : decompress codecs body enc limit = .ok out) :
    out.length ≤ limit ∨ out = body := by
  unfold decompress at hd
  dsimp only at hd
  split at hd
  · exact .inr (Except.ok.inj hd).symm
  · split at hd
    · cases hd
    · exact .inr (Except.ok.inj hd).symm
    · rename_i hok
      exact decoded_length hl (Except.ok.inj hd ▸ hok)

-- Only the size limit keeps a response from being made.
theorem decompress_error {codecs : Codecs} {body : Bytes} {enc : Option String} {limit : Nat} {exc : Exn}
    (hd : decompress codecs body enc limit = .error exc) : ∃ message, exc = .httpError message := by
  unfold decompress at hd
  dsimp only at hd
  split at hd
  · cases hd
  · split at hd
    · exact ⟨_, (Except.error.inj hd).symm⟩
    · cases hd
    · cases hd

end NeverFox.Client
