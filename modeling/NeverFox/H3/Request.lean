import NeverFox.Client.Response
import NeverFox.H3.Log
import NeverFox.Lib.Run

namespace NeverFox.H3

-- What a body is tried on: `brotli.decompress` and `zlib.decompress`.
structure Trials where
  brotli : Bytes → Except Exn Bytes
  inflate : Int → Bytes → Except Exn Bytes

def gzipMagic : Bytes := [0x1f, 0x8b]

def zstdMagic : Bytes := [0x28, 0xb5, 0x2f, 0xfd]

-- The last trial: a raw stream, if there is a zlib.error for a zlib one.
def inflates (trials : Trials) (body : Bytes) : Bool :=
  match trials.inflate Client.MAX_WBITS body with
  | .ok _ => true
  | .error .zlibError => (trials.inflate (-Client.MAX_WBITS) body).isOk
  | .error _ => false

-- `_sniff_encoding`
def sniffEncoding (trials : Trials) (body : Bytes) : Option String :=
  if body = [] then none
  else if body.take 2 = gzipMagic then some "gzip"
  else if body.take 4 = zstdMagic then some "zstd"
  else if (Utf8.decode? body).isSome then none
  else if (trials.brotli body).isOk then some "br"
  else if inflates trials body then some "deflate"
  else none

-- A file under the output directory, as os.walk comes to it. Of its time only the
-- order counts.
structure OutFile where
  mtime : Except Exn Int
  content : Except Exn Bytes

-- What subprocess.run comes to.
inductive Outcome
  | finished (returncode : Int) (stderr : Bytes) (files : List OutFile)
  | timedOut
  | notStarted (exc : Exn)

structure Launch where
  args : List String
  env : Dict String String
  timeout : Nat

-- What h3.request finds on the machine it runs on. `rmtree` says if a directory
-- can be removed: errors of that are ignored.
structure System where
  bundled : Bool
  binary : String
  environ : Dict String String
  libDirs : List String
  darwin : Bool
  pathsep : String
  mkdtemp : String → Except Exn String
  run : Launch → Outcome
  rmtree : String → Bool

-- The arguments of h3.request.
structure Call where
  method : String
  url : String
  headers : List Header
  body : Body
  timeout : Nat

-- `_env`
def System.env (sys : System) : Dict String String :=
  if sys.libDirs = [] then sys.environ
  else
    let key := if sys.darwin then "DYLD_LIBRARY_PATH" else "LD_LIBRARY_PATH"
    let old := sys.environ.getD key ""
    sys.environ.set key (sys.pathsep.intercalate (sys.libDirs ++ if old = "" then [] else [old]))

def setDefault (d : Dict String String) (key value : String) : Dict String String :=
  if (d.get? key).isSome then d else d.set key value

-- neqo gives up before the caller does.
def idleSeconds (timeout : Nat) : Nat := max 2 (min (timeout - 1) 8)

-- neqo emits the pseudo-headers itself.
def headerArgs (headers : List Header) : List String :=
  (headers.filter fun field => !isPseudo field.1.toList).flatMap fun field =>
    ["-H", s!"{field.1}: {field.2}"]

def launch (sys : System) (call : Call) (outdir : String) : Launch where
  args := [sys.binary, "--idle", toString (idleSeconds call.timeout), "--output-dir", outdir, "-m",
    PyText.upper call.method] ++ headerArgs call.headers ++ [call.url]
  env := setDefault sys.env "RUST_LOG" "neqo_bin=debug,neqo_http3=info,neqo_transport=info"
  timeout := call.timeout

-- One octet in the repr() of bytes.
def reprOctet (quote : Char) (b : UInt8) : List Char :=
  let c := Char.ofNat b.toNat
  if c = quote ∨ c = '\\' then ['\\', c]
  else if c = '\t' then ['\\', 't']
  else if c = '\n' then ['\\', 'n']
  else if c = '\r' then ['\\', 'r']
  else if b < 0x20 ∨ 0x7f ≤ b then
    ['\\', 'x', (b.toNat / 16).digitChar, (b.toNat % 16).digitChar]
  else [c]

def bytesRepr (data : Bytes) : String :=
  let quote := if 0x27 ∈ data ∧ 0x22 ∉ data then '"' else '\x27'
  String.ofList ('b' :: quote :: data.flatMap (reprOctet quote) ++ [quote])

def noStatus (returncode : Int) (stderr : Bytes) : Exn :=
  let tail := stderr.drop (stderr.length - 200)
  .runtimeError s!"h3: could not read response status (exit={returncode}): {bytesRepr tail}"

-- The first of the latest files, with its time.
def latest (best : Int × OutFile) (file : OutFile) : Except Exn (Int × OutFile) := do
  let mtime ← file.mtime
  return if best.1 < mtime then (mtime, file) else best

-- The body: what is in the newest file, or nothing if there is none.
def readNewest : List OutFile → Except Exn Bytes
  | [] => .ok []
  | file :: files => do
      let mtime ← file.mtime
      let (_, newest) ← files.foldlM latest (mtime, file)
      newest.content

def withEncoding (trials : Trials) (headers : List Header) (data : Bytes) : List Header :=
  if data ≠ [] ∧ ∀ field ∈ headers, field.1 ≠ "content-encoding" then
    match sniffEncoding trials data with
    | some enc => headers ++ [("content-encoding", enc)]
    | none => headers
  else headers

-- The inside of the try block, from where the process has ended. The exit code is
-- only looked at for the message.
def answer (named : Bytes → Option Char) (trials : Trials) : Outcome → Except Exn RawResponse
  | .timedOut => .error .otherError
  | .notStarted exc => .error exc
  | .finished returncode stderr files => do
      let (status, headers) ← parseResponse named stderr
      match status with
      | none => throw (noStatus returncode stderr)
      | some n =>
          let data ← readNewest files
          return ⟨some n, withEncoding trials headers data, data⟩

-- The temporary directories there are stand beside the result.
def request (named : Bytes → Option Char) (trials : Trials) (sys : System) (call : Call)
    (dirs : List String) : Except Exn RawResponse × List String :=
  if sys.bundled = false then (.error (.runtimeError "neqo-client not bundled"), dirs)
  else if call.body.truthy then
    (.error (.runtimeError "h3 request body not supported; fall back to h2"), dirs)
  else
    match sys.mkdtemp "nf_h3_" with
    | .error exc => (.error exc, dirs)
    | .ok outdir =>
        let dirs := outdir :: dirs
        let result := answer named trials (sys.run (launch sys call outdir))
        (result, if sys.rmtree outdir then dirs.erase outdir else dirs)

-- How the process of a call ends, if it comes to one.
def System.outcome (sys : System) (call : Call) : Option Outcome :=
  if sys.bundled = false ∨ call.body.truthy then none
  else match sys.mkdtemp "nf_h3_" with
    | .error _ => none
    | .ok outdir => some (sys.run (launch sys call outdir))

-- A directory that a call makes can be removed.
def Removable (sys : System) (call : Call) : Prop :=
  sys.outcome call ≠ none → ∀ outdir, sys.mkdtemp "nf_h3_" = .ok outdir → sys.rmtree outdir = true

-- No directory is left just if the one that was made can be removed.
theorem request_dirs (named : Bytes → Option Char) (trials : Trials) (sys : System) (call : Call)
    (dirs : List String) : (request named trials sys call dirs).2 = dirs ↔ Removable sys call := by
  unfold request Removable System.outcome
  by_cases hbundled : sys.bundled = false
  · rw [if_pos hbundled, if_pos (.inl hbundled)]
    exact iff_of_true rfl fun h => absurd rfl h
  · by_cases hbody : call.body.truthy = true
    · rw [if_neg hbundled, if_pos hbody, if_pos (.inr hbody)]
      exact iff_of_true rfl fun h => absurd rfl h
    · rw [if_neg hbundled, if_neg hbody, if_neg (not_or.mpr ⟨hbundled, hbody⟩)]
      cases sys.mkdtemp "nf_h3_" with
      | error exc => exact iff_of_true rfl fun _ _ h => by cases h
      | ok outdir =>
          dsimp only
          cases hremoved : sys.rmtree outdir with
          | true =>
              rw [if_pos rfl, List.erase_cons_head]
              refine iff_of_true rfl fun _ made h => ?_
              rwa [← Except.ok.inj h]
          | false =>
              rw [if_neg Bool.false_ne_true]
              refine iff_of_false (List.cons_ne_self _ _) fun h => ?_
              have htrue := h (Option.some_ne_none _) outdir rfl
              rw [hremoved] at htrue
              cases htrue

-- A call that comes to a process is answered as the process was.
theorem request_outcome {named : Bytes → Option Char} {trials : Trials} {sys : System} {call : Call}
    {outcome : Outcome} (h : sys.outcome call = some outcome) (dirs : List String) :
    (request named trials sys call dirs).1 = answer named trials outcome := by
  unfold System.outcome at h
  unfold request
  split at h
  · cases h
  · rename_i hgo
    rw [not_or] at hgo
    rw [if_neg hgo.1, if_neg hgo.2]
    cases htemp : sys.mkdtemp "nf_h3_" with
    | error exc =>
        rw [htemp] at h
        cases h
    | ok outdir =>
        rw [htemp] at h
        rw [← Option.some.inj h]

theorem request_idle {named : Bytes → Option Char} {trials : Trials} {sys : System} {call : Call}
    (h : sys.outcome call = none) (dirs : List String) :
    ∃ exc, (request named trials sys call dirs).1 = .error exc := by
  unfold System.outcome at h
  unfold request
  by_cases hbundled : sys.bundled = false
  · rw [if_pos hbundled]
    exact ⟨_, rfl⟩
  · rw [if_neg hbundled]
    by_cases hbody : call.body.truthy = true
    · rw [if_pos hbody]
      exact ⟨_, rfl⟩
    · rw [if_neg hbody]
      rw [if_neg (not_or.mpr ⟨hbundled, hbody⟩)] at h
      cases htemp : sys.mkdtemp "nf_h3_" with
      | error exc => exact ⟨exc, rfl⟩
      | ok outdir =>
          rw [htemp] at h
          cases h

-- What a successful answer is made of. Nothing in it depends on the exit code.
theorem answer_finished {named : Bytes → Option Char} {trials : Trials} {returncode : Int} {stderr : Bytes}
    {files : List OutFile} {raw : RawResponse} :
    answer named trials (.finished returncode stderr files) = .ok raw ↔
      ∃ n headers data, parseResponse named stderr = .ok (some n, headers) ∧ readNewest files = .ok data ∧
        raw = ⟨some n, withEncoding trials headers data, data⟩ := by
  rw [answer]
  cases hparse : parseResponse named stderr with
  | error exc =>
      refine iff_of_false (fun h => by cases h) ?_
      rintro ⟨_, _, _, heq, _⟩
      cases heq
  | ok found =>
      obtain ⟨status, headers⟩ := found
      dsimp only [bind, Except.bind]
      cases status with
      | none =>
          refine iff_of_false (fun h => by cases h) ?_
          rintro ⟨_, _, _, heq, _⟩
          cases heq
      | some n =>
          cases hread : readNewest files with
          | error exc =>
              refine iff_of_false (fun h => by cases h) ?_
              rintro ⟨_, _, _, _, heq, _⟩
              cases heq
          | ok data =>
              constructor
              · intro h
                exact ⟨n, headers, data, rfl, rfl, (Except.ok.inj h).symm⟩
              · rintro ⟨_, _, _, hsame, hdata, rfl⟩
                obtain ⟨hn, rfl⟩ := Prod.mk.inj (Except.ok.inj hsame)
                obtain rfl := Option.some.inj hn
                obtain rfl := Except.ok.inj hdata
                rfl

theorem request_ok {named : Bytes → Option Char} {trials : Trials} {sys : System} {call : Call}
    {dirs : List String} {raw : RawResponse} (h : (request named trials sys call dirs).1 = .ok raw) :
    ∃ returncode stderr files n headers data,
      sys.outcome call = some (.finished returncode stderr files) ∧
      parseResponse named stderr = .ok (some n, headers) ∧ readNewest files = .ok data ∧
      raw = ⟨some n, withEncoding trials headers data, data⟩ := by
  cases hout : sys.outcome call with
  | none =>
      obtain ⟨exc, herror⟩ := @request_idle named trials sys call hout dirs
      rw [herror] at h
      cases h
  | some outcome =>
      rw [request_outcome hout] at h
      cases outcome with
      | timedOut => cases h
      | notStarted exc => cases h
      | finished returncode stderr files =>
          obtain ⟨n, headers, data, hparse, hread, hraw⟩ := answer_finished.mp h
          exact ⟨returncode, stderr, files, n, headers, data, rfl, hparse, hread, hraw⟩

-- What the parser has found so far: a final status, and names in lower case.
structure Settled (found : Option Int × List Header) : Prop where
  final : ∀ n, found.1 = some n → 200 ≤ n
  lower : ∀ field ∈ found.2, PyText.lower field.1 = field.1

theorem readHeader_lower {named : Bytes → Option Char} {line line' : LineRead} {found : List Char × RawValue}
    (hlow : ∀ field ∈ line.headers, PyText.lower field.1 = field.1)
    (h : readHeader named line found = .ok line') :
    ∀ field ∈ line'.headers, PyText.lower field.1 = field.1 := by
  unfold readHeader at h
  cases hname : unescape named found.1 with
  | error exc =>
      rw [hname] at h
      cases h
  | ok name =>
      rw [hname] at h
      dsimp only [bind, Except.bind] at h
      cases hval : readValue named found.2 with
      | error exc =>
          rw [hval] at h
          cases h
      | ok val =>
          rw [hval] at h
          dsimp only at h
          split at h
          · split at h
            all_goals
              obtain rfl := Except.ok.inj h
              exact hlow
          · split at h
            · obtain rfl := Except.ok.inj h
              exact hlow
            · obtain rfl := Except.ok.inj h
              rw [List.forall_mem_append, List.forall_mem_singleton]
              exact ⟨hlow, PyText.lower_ofList_lowerText name⟩

theorem Settled.settle {read : LineRead} {found : Option Int × List Header} (hs : Settled found)
    (hlow : ∀ field ∈ read.headers, PyText.lower field.1 = field.1) : Settled (read.settle found) := by
  unfold LineRead.settle
  cases read.status with
  | none => exact hs
  | some n =>
      dsimp only
      by_cases hn : 200 ≤ n
      · rw [if_pos hn]
        refine ⟨fun m hm => ?_, hlow⟩
        obtain rfl := Option.some.inj hm
        exact hn
      · rw [if_neg hn]
        exact hs

theorem Settled.nextLine {named : Bytes → Option Char} {found found' : Option Int × List Header}
    {line : List Char} (hs : Settled found) (h : nextLine named found line = .ok found') :
    Settled found' := by
  unfold H3.nextLine at h
  split at h
  · cases hread : readLine named line with
    | error exc =>
        rw [hread] at h
        cases h
    | ok read =>
        rw [hread] at h
        obtain rfl := Except.ok.inj h
        refine hs.settle ?_
        exact Transition.foldlM_invariant (fun line => ∀ field ∈ line.headers, PyText.lower field.1 = field.1)
          (fun _ _ _ hlow hread => readHeader_lower hlow hread) (by simp) hread
  · obtain rfl := Except.ok.inj h
    exact hs

theorem settled_start : Settled (none, []) where
  final n hn := by cases hn
  lower _ hmem := absurd hmem List.not_mem_nil

-- A status that is read is final, and the names come in lower case.
theorem parse_settled {named : Bytes → Option Char} {stderr : Bytes} {found : Option Int × List Header}
    (h : parseResponse named stderr = .ok found) : Settled found :=
  Transition.foldlM_invariant Settled (fun _ _ _ hs hstep => hs.nextLine hstep) settled_start h

end NeverFox.H3
