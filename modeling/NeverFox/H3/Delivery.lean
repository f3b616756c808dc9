import NeverFox.Client.Inflation
import NeverFox.H3.Fallback

namespace NeverFox.H3

open Client (Codecs Member Response MAX_WBITS)

-- What zlib.decompress makes of a stream: it has to be there in full, and what
-- follows it is passed over.
def oneShot : Member → Except Exn Bytes
  | .complete out _ => .ok out
  | .truncated _ | .corrupt _ => .error .zlibError

-- The decoders as they are documented. zstandard raises no error of the client's own.
structure Decoders (codecs : Codecs) (inflate : Int → Bytes → Except Exn Bytes)
    (member : Int → Bytes → Member) : Prop where
  reads : codecs.Reads member
  oneShot : ∀ wbits body, inflate wbits body = oneShot (member wbits body)
  foreign : ∀ body n message, codecs.zstd body n ≠ .error (.httpError message)

-- The body is guessed at: it has no magic number, and it is no text.
structure Guessed (body : Bytes) : Prop where
  gzip : body.take 2 ≠ gzipMagic
  zstd : body.take 4 ≠ zstdMagic
  text : Utf8.decode? body = none

-- A zlib stream, or a raw one, is at the front of the body in full.
def Streams (member : Int → Bytes → Member) (body : Bytes) : Prop :=
  ∃ out rest, member MAX_WBITS body = .complete out rest ∨ member (-MAX_WBITS) body = .complete out rest

-- The raw reading is put out if the zlib one is in error.
def deflated (member : Int → Bytes → Member) (body : Bytes) : Option Bytes :=
  (member MAX_WBITS body).out?.or (member (-MAX_WBITS) body).out?

-- What the body is taken for decodes to the body itself, or not at all.
structure Undisturbed (codecs : Codecs) (member : Int → Bytes → Member) (body : Bytes) : Prop where
  gzip : body.take 2 = gzipMagic → ∀ out, (member (16 + MAX_WBITS) body).out? = some out → out = body
  zstd : body.take 4 = zstdMagic → ∀ out, codecs.zstd body none = .ok out → out = body
  brotli : Guessed body → ∀ out, codecs.brotli body = .ok out → out = body
  deflate : Guessed body → (codecs.brotli body).isOk = false → Streams member body →
    ∀ out, deflated member body = some out → out = body

-- neqo-client has ended behind a final response and has written a body.
def Written (named : Bytes → Option Char) (sys : System) (call : Call) (n : Int) (headers : List Header)
    (body : Bytes) : Prop :=
  ∃ returncode stderr files, sys.outcome call = some (.finished returncode stderr files) ∧
    parseResponse named stderr = .ok (some n, headers) ∧ readNewest files = .ok body

-- The response made from a call has the body for its content, as the response over
-- HTTP/2 with the same headers and body has.
def Delivered (codecs : Codecs) (result : Except Exn RawResponse) (url : String) (n : Int)
    (headers : List Header) (body : Bytes) : Prop :=
  ∃ resp, result.bind (fun raw => Response.make codecs raw "h3" url 0) = .ok resp ∧ resp.content = body ∧
    ∀ limit, ∃ other, Response.make codecs ⟨some n, headers, body⟩ "h2" url limit = .ok other ∧
      other.content = resp.content

variable {codecs : Codecs} {inflate : Int → Bytes → Except Exn Bytes} {member : Int → Bytes → Member}

theorem isOk_iff {α : Type} {result : Except Exn α} : result.isOk = true ↔ ∃ x, result = .ok x := by
  cases result with
  | error exc => exact iff_of_false (fun h => by cases h) (fun ⟨_, h⟩ => by cases h)
  | ok x => exact iff_of_true rfl ⟨x, rfl⟩

theorem salvaged_result (m : Member) (body : Bytes) :
    Client.salvaged body (m.result 0) = .ok body ↔ ∀ out, m.out? = some out → out = body := by
  cases hout : m.out? with
  | none =>
      rw [Member.result_error (Member.not_exceeds_zero m) hout]
      exact iff_of_true rfl nofun
  | some out =>
      rw [Member.result_taken (Member.not_exceeds_zero m) hout]
      constructor
      · intro heq x hx
        rw [← Option.some.inj hx]
        exact Except.ok.inj heq
      · intro h
        rw [h out rfl]
        rfl

theorem inflates_iff (h : Decoders codecs inflate member) (brotli : Bytes → Except Exn Bytes) (body : Bytes) :
    inflates ⟨brotli, inflate⟩ body = true ↔ Streams member body := by
  unfold inflates Streams
  dsimp only
  rw [h.oneShot, h.oneShot]
  cases member MAX_WBITS body with
  | complete out rest => exact iff_of_true rfl ⟨out, rest, .inl rfl⟩
  | truncated out => cases member (-MAX_WBITS) body <;> simp [oneShot, Except.isOk, Except.toBool]
  | corrupt out => cases member (-MAX_WBITS) body <;> simp [oneShot, Except.isOk, Except.toBool]

-- What a body labelled so is decoded to without a limit.
theorem decompress_named {body : Bytes} {enc : String} (henc : PyText.lower enc = enc)
    (hne : enc ≠ "" ∧ enc ≠ "identity") :
    Client.decompress codecs body (some enc) 0 = Client.salvaged body (Client.decoded codecs body enc 0) := by
  unfold Client.decompress
  rw [Option.getD_some, henc]
  dsimp only
  rw [if_neg (not_or.mpr hne)]
  rfl

theorem checked_unlimited (result : Except Exn Bytes) : result.bind (Client.checkLimit 0) = result := by
  cases result with
  | error exc => rfl
  | ok out =>
      show Client.checkLimit 0 out = .ok out
      unfold Client.checkLimit
      exact if_neg fun h => h.1 rfl

-- The one lookup of a header that `_sniff_encoding` may have added.
theorem contentEncoding_append (headers : List Header) (enc : String) :
    Client.contentEncoding (headers ++ [("content-encoding", enc)]) = some enc := by
  have hkey : PyText.lower "content-encoding" = "content-encoding" := by decide
  unfold Client.contentEncoding Client.headerDict
  rw [List.foldl_append, List.foldl_cons, List.foldl_nil, Dict.get?_set, hkey, if_pos rfl]

theorem contentEncoding_none {headers : List Header}
    (h : ∀ field ∈ headers, PyText.lower field.1 ≠ "content-encoding") :
    Client.contentEncoding headers = none := by
  unfold Client.contentEncoding Client.headerDict
  induction headers using List.reverseRecOn with
  | nil => rfl
  | append_singleton headers field ih =>
      rw [List.forall_mem_append, List.forall_mem_singleton] at h
      rw [List.foldl_append, List.foldl_cons, List.foldl_nil, Dict.get?_set, if_neg (Ne.symm h.2)]
      exact ih h.1

-- The label that the response is decoded by is the one that was sniffed.
theorem contentEncoding_sniffed (trials : Trials) {headers : List Header}
    (hno : Client.contentEncoding headers = none)
    (hnames : ∀ field ∈ headers, field.1 ≠ "content-encoding") (body : Bytes) :
    Client.contentEncoding (withEncoding trials headers body) = sniffEncoding trials body := by
  unfold withEncoding
  by_cases hbody : body = []
  · rw [if_neg fun h => h.1 hbody, hno, sniffEncoding, if_pos hbody]
  · rw [if_pos ⟨hbody, hnames⟩]
    cases sniffEncoding trials body with
    | none => exact hno
    | some enc => exact contentEncoding_append headers enc

-- Each label but the body's own leaves nothing to ask.
theorem undisturbed_gzip {body : Bytes} (hgzip : body.take 2 = gzipMagic) :
    Undisturbed codecs member body ↔ ∀ out, (member (16 + MAX_WBITS) body).out? = some out → out = body := by
  have hzstd : body.take 4 ≠ zstdMagic := by
    intro hz
    have htake : (body.take 4).take 2 = body.take 2 := by rw [List.take_take]; rfl
    rw [hz, hgzip] at htake
    exact absurd htake (by decide)
  constructor
  · intro hu
    exact hu.gzip hgzip
  · intro hout
    exact ⟨fun _ => hout, fun hz => absurd hz hzstd, fun hg => absurd hgzip hg.gzip,
      fun hg => absurd hgzip hg.gzip⟩

theorem undisturbed_zstd {body : Bytes} (hgzip : body.take 2 ≠ gzipMagic) (hzstd : body.take 4 = zstdMagic) :
    Undisturbed codecs member body ↔ ∀ out, codecs.zstd body none = .ok out → out = body := by
  constructor
  · intro hu
    exact hu.zstd hzstd
  · intro hout
    exact ⟨fun hg => absurd hg hgzip, fun _ => hout, fun hg => absurd hzstd hg.zstd,
      fun hg => absurd hzstd hg.zstd⟩

theorem undisturbed_text {body : Bytes} (hgzip : body.take 2 ≠ gzipMagic) (hzstd : body.take 4 ≠ zstdMagic)
    (htext : (Utf8.decode? body).isSome = true) : Undisturbed codecs member body := by
  have hknown : ¬Guessed body := by
    intro hg
    rw [hg.text] at htext
    cases htext
  exact ⟨fun hg => absurd hg hgzip, fun hz => absurd hz hzstd, fun hg => absurd hg hknown,
    fun hg => absurd hg hknown⟩

theorem undisturbed_guessed {body : Bytes} (hg : Guessed body) :
    Undisturbed codecs member body ↔ (∀ out, codecs.brotli body = .ok out → out = body) ∧
      ((codecs.brotli body).isOk = false → Streams member body →
        ∀ out, deflated member body = some out → out = body) := by
  constructor
  · intro hu
    exact ⟨hu.brotli hg, hu.deflate hg⟩
  · rintro ⟨hbrotli, hdeflate⟩
    exact ⟨fun h => absurd h hg.gzip, fun h => absurd h hg.zstd, fun _ => hbrotli, fun _ => hdeflate⟩

-- What each label makes of the body.
theorem decompress_gzip_iff (h : Decoders codecs inflate member) (body : Bytes) :
    Client.decompress codecs body (some "gzip") 0 = .ok body ↔
      ∀ out, (member (16 + MAX_WBITS) body).out? = some out → out = body := by
  rw [Client.decompress_gzip h.reads (by decide), salvaged_result]

theorem decompress_zstd_iff (h : Decoders codecs inflate member) (body : Bytes) :
    Client.decompress codecs body (some "zstd") 0 = .ok body ↔
      ∀ out, codecs.zstd body none = .ok out → out = body := by
  have hdecoded : Client.decoded codecs body "zstd" 0 = codecs.zstd body none := checked_unlimited _
  rw [decompress_named (by decide) (by decide), hdecoded]
  cases hout : codecs.zstd body none with
  | ok out =>
      constructor
      · intro heq x hx
        rw [← Except.ok.inj hx]
        exact Except.ok.inj heq
      · intro hsame
        rw [hsame out rfl]
        rfl
  | error exc =>
      refine iff_of_true ?_ nofun
      cases exc with
      | httpError message => exact absurd hout (h.foreign body none message)
      | _ => rfl

theorem decompress_brotli {body out : Bytes} (h : codecs.brotli body = .ok out) :
    Client.decompress codecs body (some "br") 0 = .ok out := by
  have hdecoded : Client.decoded codecs body "br" 0 = codecs.brotli body := checked_unlimited _
  rw [decompress_named (by decide) (by decide), hdecoded, h]
  rfl

theorem decompress_deflate_iff (h : Decoders codecs inflate member) (body : Bytes) :
    Client.decompress codecs body (some "deflate") 0 = .ok body ↔
      ∀ out, deflated member body = some out → out = body := by
  rw [Client.decompress_deflate h.reads (by decide)]
  unfold deflated
  cases hfirst : (member MAX_WBITS body).out? with
  | none =>
      rw [if_pos ⟨rfl, Member.not_exceeds_zero _⟩, salvaged_result, Option.none_or]
  | some out =>
      rw [if_neg (fun hc => by cases hc.1), salvaged_result, Option.some_or, hfirst]

-- The body comes through its own label if and only if that disturbs nothing.
theorem decompress_sniffed_iff (h : Decoders codecs inflate member) (body : Bytes) :
    Client.decompress codecs body (sniffEncoding ⟨codecs.brotli, inflate⟩ body) 0 = .ok body ↔
      Undisturbed codecs member body := by
  unfold sniffEncoding
  by_cases hbody : body = []
  · subst hbody
    rw [if_pos rfl]
    exact iff_of_true rfl (undisturbed_text (by decide) (by decide) rfl)
  rw [if_neg hbody]
  by_cases hgzip : body.take 2 = gzipMagic
  · rw [if_pos hgzip, undisturbed_gzip hgzip]
    exact decompress_gzip_iff h body
  rw [if_neg hgzip]
  by_cases hzstd : body.take 4 = zstdMagic
  · rw [if_pos hzstd, undisturbed_zstd hgzip hzstd]
    exact decompress_zstd_iff h body
  rw [if_neg hzstd]
  by_cases htext : (Utf8.decode? body).isSome = true
  · rw [if_pos htext]
    exact iff_of_true rfl (undisturbed_text hgzip hzstd htext)
  rw [if_neg htext, undisturbed_guessed ⟨hgzip, hzstd, Option.not_isSome_iff_eq_none.mp htext⟩]
  by_cases hbrotli : (codecs.brotli body).isOk = true
  · rw [if_pos hbrotli]
    obtain ⟨out, hout⟩ := isOk_iff.mp hbrotli
    rw [decompress_brotli hout, hout]
    constructor
    · intro heq
      refine ⟨fun x hx => ?_, fun hno => by cases hno⟩
      rw [← Except.ok.inj hx]
      exact Except.ok.inj heq
    · intro hu
      rw [hu.1 out rfl]
  · rw [if_neg hbrotli]
    have hnone : ∀ out, codecs.brotli body = .ok out → out = body := fun out hout =>
      absurd (isOk_iff.mpr ⟨out, hout⟩) hbrotli
    by_cases hstreams : Streams member body
    · rw [if_pos ((inflates_iff h _ body).mpr hstreams), decompress_deflate_iff h]
      constructor
      · intro hout
        exact ⟨hnone, fun _ _ => hout⟩
      · intro hu
        exact hu.2 (Bool.eq_false_iff.mpr hbrotli) hstreams
    · rw [if_neg fun hi => hstreams ((inflates_iff h _ body).mp hi)]
      exact iff_of_true rfl ⟨hnone, fun _ hs => absurd hs hstreams⟩

theorem make_content (codecs : Codecs) (raw : RawResponse) (proto url : String) (limit : Nat)
    (content : Bytes) :
    (∃ resp, Response.make codecs raw proto url limit = .ok resp ∧ resp.content = content) ↔
      Client.decompress codecs raw.body (Client.contentEncoding raw.headers) limit = .ok content := by
  unfold Response.make
  cases Client.decompress codecs raw.body (Client.contentEncoding raw.headers) limit with
  | error exc => exact iff_of_false (fun ⟨_, h, _⟩ => by cases h) (fun h => by cases h)
  | ok out =>
      constructor
      · rintro ⟨resp, hmade, rfl⟩
        obtain rfl := Except.ok.inj hmade
        rfl
      · intro hout
        obtain rfl := Except.ok.inj hout
        exact ⟨_, rfl, rfl⟩

-- What is delivered is what the sniffed label makes of the body.
theorem delivered_iff_sniffed {named : Bytes → Option Char} {sys : System} {call : Call} {n : Int}
    {headers : List Header} {body : Bytes} (hw : Written named sys call n headers body)
    (hno : ∀ field ∈ headers, field.1 ≠ "content-encoding") (url : String) (dirs : List String) :
    Delivered codecs (request named ⟨codecs.brotli, inflate⟩ sys call dirs).1 url n headers body ↔
      Client.decompress codecs body (sniffEncoding ⟨codecs.brotli, inflate⟩ body) 0 = .ok body := by
  obtain ⟨returncode, stderr, files, hout, hparse, hread⟩ := hw
  have hlower : ∀ field ∈ headers, PyText.lower field.1 ≠ "content-encoding" := by
    intro field hfield
    rw [(parse_settled hparse).lower field hfield]
    exact hno field hfield
  have hnone := contentEncoding_none hlower
  have hplain : ∀ limit, ∃ other, Response.make codecs ⟨some n, headers, body⟩ "h2" url limit = .ok other ∧
      other.content = body := by
    intro limit
    apply (make_content codecs _ "h2" url limit body).mpr
    rw [hnone]
    rfl
  have hmade := make_content codecs
    ⟨some n, withEncoding ⟨codecs.brotli, inflate⟩ headers body, body⟩ "h3" url 0 body
  dsimp only at hmade
  rw [contentEncoding_sniffed _ hnone hno] at hmade
  rw [request_outcome hout, answer_finished.mpr ⟨n, headers, body, hparse, hread, rfl⟩, ← hmade]
  unfold Delivered
  dsimp only [Except.bind]
  constructor
  · rintro ⟨resp, hmake, hcontent, _⟩
    exact ⟨resp, hmake, hcontent⟩
  · rintro ⟨resp, hmake, hcontent⟩
    refine ⟨resp, hmake, hcontent, ?_⟩
    rw [hcontent]
    exact hplain

-- Without a content-encoding the body is delivered exactly if what it is taken for
-- disturbs nothing.
theorem body_delivered_iff (h : Decoders codecs inflate member) {named : Bytes → Option Char} {sys : System}
    {call : Call} {n : Int} {headers : List Header} {body : Bytes}
    (hw : Written named sys call n headers body)
    (hno : ∀ field ∈ headers, field.1 ≠ "content-encoding") (url : String) (dirs : List String) :
    Delivered codecs (request named ⟨codecs.brotli, inflate⟩ sys call dirs).1 url n headers body ↔
      Undisturbed codecs member body :=
  (delivered_iff_sniffed hw hno url dirs).trans (decompress_sniffed_iff h body)

theorem exiting_written (named : Bytes → Option Char) (returncode : Int) (body : Bytes) :
    Written named (exiting returncode body) (callOf getHop) 200 [] body :=
  ⟨returncode, _, _, rfl, bareLog_parse named, rfl⟩

theorem zlibFor_decoders (member : Int → Bytes → Member) :
    Decoders (Client.zlibFor member) (fun wbits body => oneShot (member wbits body)) member where
  reads := Client.zlibFor_reads member
  oneShot _ _ := rfl
  foreign _ _ _ := by
    intro h
    cases h

def gzipTrials : Trials where
  brotli _ := .error .otherError
  inflate wbits body := oneShot (Client.gzipMember wbits body)

theorem text_delivered : Delivered (Client.zlibFor Client.gzipMember)
    (request (fun _ => none) gzipTrials (exiting 0 [104, 105]) (callOf getHop) []).1 "https://a/" 200 [] [104, 105] :=
  (body_delivered_iff (zlibFor_decoders Client.gzipMember) (exiting_written _ 0 [104, 105])
    (fun _ h => absurd h List.not_mem_nil) "https://a/" []).mpr
    (undisturbed_text (by decide) (by decide) (by decide))

-- A gzip file without a content-encoding is unpacked on its way.
theorem archive_unpacked : ¬Delivered (Client.zlibFor Client.gzipMember)
    (request (fun _ => none) gzipTrials (exiting 0 Client.gzipA) (callOf getHop) []).1 "https://a/" 200 [] Client.gzipA := by
  have hm : Client.gzipMember (16 + MAX_WBITS) Client.gzipA = .complete [97] [] := by decide
  intro hd
  have hsniffed := (delivered_iff_sniffed (exiting_written _ 0 Client.gzipA)
    (fun _ h => absurd h List.not_mem_nil) "https://a/" []).mp hd
  have hu := (decompress_sniffed_iff (zlibFor_decoders Client.gzipMember) Client.gzipA).mp hsniffed
  have hsame := hu.gzip (by decide) [97] (by rw [hm]; rfl)
  exact absurd hsame (by decide)

end NeverFox.H3
