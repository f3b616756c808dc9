import NeverFox.Http1.Completeness

namespace NeverFox.Http1

-- A chunk on the wire: its size line with blanks and extension, and its octets.
structure WireChunk where
  line : Bytes
  data : Bytes

-- The three ways to say where a body ends.
inductive Content
  | counted (body : Bytes)
  | chunked (chunks : List WireChunk) (last : Bytes) (trailers : List Bytes)
  | closed (body : Bytes)

-- A response as a server means it.
structure Message where
  status : Nat
  reason : Bytes
  fields : List Header
  content : Content

namespace Content

def body : Content → Bytes
  | counted body => body
  | chunked chunks _ _ => chunks.flatMap WireChunk.data
  | closed body => body

def encode : Content → Bytes
  | counted body => body
  | chunked chunks last trailers =>
      chunks.flatMap (fun chunk => chunk.line ++ crlf ++ (chunk.data ++ crlf)) ++ (last ++ crlf) ++
        trailers.flatMap (· ++ crlf) ++ crlf
  | closed body => body

end Content

def encodeField (field : Header) : Bytes := ascii field.1 ++ ascii ": " ++ ascii field.2

def statusLine (status : Nat) (reason : Bytes) : Bytes :=
  ascii "HTTP/1.1" ++ 0x20 :: (ascii (toString status) ++ 0x20 :: reason)

def Message.encode (m : Message) : Bytes :=
  statusLine m.status m.reason ++ crlf ++ m.fields.flatMap (fun field => encodeField field ++ crlf) ++
    crlf ++ m.content.encode

-- The list as `request` hands it out.
def lowered (fields : List Header) : List Header := fields.map fun field => (PyText.lower field.1, field.2)

-- The values of the fields of one name, in whatever case it is written.
def valuesOf (name : String) (fields : List Header) : List String :=
  (fields.filter fun field => PyText.lower field.1 = name).map Prod.snd

-- Characters of one octet each, with no blanks at either end.
structure OnLine (text : String) : Prop where
  latin1 : ∀ c ∈ text.toList, c.toNat < 256
  single : '\r' ∉ text.toList
  trim : PyText.strip PyText.isSpace text.toList = text.toList

-- Every part of the content is what its framing says. A bytes object has less
-- than 2 ^ 63 octets.
def Content.WellFormed : Content → Prop
  | counted body => body.length < 2 ^ 63
  | chunked chunks last trailers =>
      (∀ chunk ∈ chunks, chunk.data ≠ [] ∧ SizeLine chunk.line chunk.data.length ∧ CR ∉ chunk.line) ∧
        (SizeLine last 0 ∧ CR ∉ last) ∧ ∀ line ∈ trailers, line ≠ [] ∧ CR ∉ line
  | closed _ => True

-- The fields say which framing it is: Content-Length with the length of the
-- body, Transfer-Encoding with chunked as the last coding, or neither.
def Content.AnnouncedBy (fields : List Header) : Content → Prop
  | counted body => valuesOf "transfer-encoding" fields = [] ∧ valuesOf "content-length" fields ≠ [] ∧
      ∀ value ∈ valuesOf "content-length" fields, value = toString body.length
  | chunked .. => ∃ front value, valuesOf "transfer-encoding" fields = front ++ [value] ∧
      "chunked".toList <:+ (PyText.lower value).toList
  | closed _ => valuesOf "transfer-encoding" fields = [] ∧ valuesOf "content-length" fields = []

structure Message.WellFormed (m : Message) : Prop where
  status : 200 ≤ m.status ∧ m.status < 1000
  reason : CR ∉ m.reason
  names : ∀ field ∈ m.fields, OnLine field.1 ∧ ':' ∉ field.1.toList
  values : ∀ field ∈ m.fields, OnLine field.2
  content : m.content.WellFormed
  announced : m.content.AnnouncedBy m.fields

theorem splitLine_line {line : Bytes} (hline : CR ∉ line) (rest : Bytes) :
    splitLine (line ++ crlf ++ rest) = some (line, rest) := by
  induction line with
  | nil => rfl
  | cons a line ih =>
      rw [List.mem_cons, not_or] at hline
      have hrest := ih hline.2
      cases hl : line ++ crlf ++ rest with
      | nil => simp [crlf] at hl
      | cons b tail =>
          rw [hl] at hrest
          rw [List.cons_append, List.cons_append, hl]
          unfold splitLine
          rw [if_neg fun h => hline.1 h.1.symm, hrest]
          rfl

theorem ascii_toNat {c : Char} (hc : c.toNat < 256) : Char.ofNat (UInt8.ofNat c.toNat).toNat = c := by
  rw [UInt8.toNat_ofNat', Nat.mod_eq_of_lt hc, Char.ofNat_toNat]

theorem latin1_ascii {text : String} (h : ∀ c ∈ text.toList, c.toNat < 256) :
    PyText.latin1 (ascii text) = text.toList := by
  unfold PyText.latin1 ascii
  rw [List.map_map]
  conv_rhs => rw [← List.map_id text.toList]
  exact List.map_congr_left fun c hc => ascii_toNat (h c hc)

theorem mem_ascii {text : String} (h : ∀ c ∈ text.toList, c.toNat < 256) {c : Char} (hc : c.toNat < 256) :
    UInt8.ofNat c.toNat ∈ ascii text ↔ c ∈ text.toList := by
  constructor
  · intro hm
    obtain ⟨d, hd, he⟩ := List.mem_map.mp hm
    have hchar := congrArg (fun b : UInt8 => Char.ofNat b.toNat) he
    simp only [ascii_toNat (h d hd), ascii_toNat hc] at hchar
    exact hchar ▸ hd
  · intro hm
    exact List.mem_map.mpr ⟨c, hm, rfl⟩

theorem OnLine.cr {text : String} (h : OnLine text) : CR ∉ ascii text := by
  intro hm
  exact h.single ((mem_ascii h.latin1 (c := '\r') (by decide)).mp hm)

theorem encodeField_line {field : Header} (hn : OnLine field.1) (hv : OnLine field.2) :
    CR ∉ encodeField field := by
  intro hm
  rcases List.mem_append.mp hm with hm | hm
  · rcases List.mem_append.mp hm with hm | hm
    · exact hn.cr hm
    · exact absurd hm (by decide)
  · exact hv.cr hm

-- What the reader makes of a field line.
theorem parseField_encodeField {field : Header} (hn : OnLine field.1) (hcolon : ':' ∉ field.1.toList)
    (hv : OnLine field.2) : parseField (encodeField field) = (PyText.lower field.1, field.2) := by
  have hcolon' : ∀ b ∈ ascii field.1, decide (b ≠ COLON) = true := by
    intro b hb
    rw [decide_eq_true_eq]
    rintro rfl
    exact hcolon ((mem_ascii hn.latin1 (c := ':') (by decide)).mp hb)
  have hsep : ascii ": " = [COLON, 0x20] := by decide
  have htake : (encodeField field).takeWhile (· ≠ COLON) = ascii field.1 := by
    rw [encodeField, hsep, List.append_assoc, List.takeWhile_append_of_pos hcolon']
    simp
  have hdrop : (encodeField field).dropWhile (· ≠ COLON) = COLON :: 0x20 :: ascii field.2 := by
    rw [encodeField, hsep, List.append_assoc, List.dropWhile_append_of_pos hcolon']
    simp
  have hname : trimmed (ascii field.1) = field.1 := by
    rw [trimmed, latin1_ascii hn.latin1, hn.trim, String.ofList_toList]
  have hvalue : trimmed (0x20 :: ascii field.2) = field.2 := by
    have hblank : PyText.latin1 (0x20 :: ascii field.2) = ' ' :: field.2.toList := by
      rw [← latin1_ascii hv.latin1]
      rfl
    rw [trimmed, hblank, PyText.strip_cons_blank (by decide), hv.trim, String.ofList_toList]
  rw [parseField, htake, hdrop, hname, List.drop_succ_cons, List.drop_zero, hvalue]

theorem encodeField_ne_nil (field : Header) : encodeField field ≠ [] := by
  have hsep : ascii ": " = [COLON, 0x20] := by decide
  simp [encodeField, hsep]

theorem fields_encode {fields : List Header}
    (hn : ∀ field ∈ fields, OnLine field.1 ∧ ':' ∉ field.1.toList) (hv : ∀ field ∈ fields, OnLine field.2)
    (content : Bytes) :
    Fields (fields.flatMap (fun field => encodeField field ++ crlf) ++ crlf ++ content) (lowered fields)
      content := by
  induction fields with
  | nil => exact .blank _ _ (splitLine_line List.not_mem_nil content)
  | cons field rest ih =>
      obtain ⟨hline, hcolon⟩ := hn field List.mem_cons_self
      have hvalue := hv field List.mem_cons_self
      have hsplit := splitLine_line (encodeField_line hline hvalue)
        (rest.flatMap (fun field => encodeField field ++ crlf) ++ crlf ++ content)
      have hrest := ih (fun f hf => hn f (List.mem_cons_of_mem _ hf)) fun f hf =>
        hv f (List.mem_cons_of_mem _ hf)
      rw [lowered, List.map_cons, ← parseField_encodeField hline hcolon hvalue]
      refine .field _ _ _ _ _ ?_ (encodeField_ne_nil field) hrest
      rw [← hsplit, List.flatMap_cons]
      simp only [List.append_assoc]

theorem chunks_encode {chunks : List WireChunk} {last : Bytes} (trailers : List Bytes)
    (hchunks : ∀ chunk ∈ chunks,
      chunk.data ≠ [] ∧ SizeLine chunk.line chunk.data.length ∧ CR ∉ chunk.line)
    (hlast : SizeLine last 0 ∧ CR ∉ last) :
    Chunks (Content.chunked chunks last trailers).encode (Content.chunked chunks last trailers).body := by
  induction chunks with
  | nil =>
      refine .last _ last (trailers.flatMap (· ++ crlf) ++ crlf) ?_ hlast.1
      rw [← splitLine_line hlast.2]
      simp [Content.encode]
  | cons chunk rest ih =>
      obtain ⟨hne, hsize, hline⟩ := hchunks chunk List.mem_cons_self
      have hrest := ih fun c hc => hchunks c (List.mem_cons_of_mem _ hc)
      refine .chunk _ chunk.line chunk.data _ _ ?_ hne hsize hrest
      rw [← splitLine_line hline]
      simp [Content.encode]

theorem digits_plain (n : Nat) : ∀ c ∈ Nat.toDigits 10 n, 48 ≤ c.toNat ∧ c.toNat ≤ 57 := by
  intro c hc
  have hdigit := Char.isDigit_iff_toNat.mp (Nat.isDigit_of_mem_toDigits (by decide) (by decide) hc)
  exact hdigit

theorem statusCode_statusLine {status : Nat} (hs : status < 1000) (reason : Bytes) :
    statusCode (statusLine status reason) = .ok status := by
  have hdigits : ∀ c ∈ (toString status).toList, 48 ≤ c.toNat ∧ c.toNat ≤ 57 := by
    intro c hc
    rw [Nat.toString_eq_repr, Nat.toList_repr] at hc
    exact digits_plain status c hc
  have hversion : (0x20 : UInt8) ∉ ascii "HTTP/1.1" := by decide
  have htoken : (0x20 : UInt8) ∉ ascii (toString status) := by
    intro hm
    obtain ⟨c, hc, he⟩ := List.mem_map.mp hm
    have hrange := hdigits c hc
    have hnat := congrArg UInt8.toNat he
    rw [UInt8.toNat_ofNat', Nat.mod_eq_of_lt (by omega)] at hnat
    have hblank : (0x20 : UInt8).toNat = 32 := rfl
    omega
  have hsplit : ((statusLine status reason).splitOn 0x20)[1]? = some (ascii (toString status)) := by
    rw [statusLine, List.splitOn_append_cons_self_of_not_mem hversion,
      List.splitOn_append_cons_self_of_not_mem htoken]
    rfl
  have hlatin : PyText.latin1 (ascii (toString status)) = Nat.toDigits 10 status := by
    rw [latin1_ascii fun c hc => by have := hdigits c hc; omega, Nat.toString_eq_repr, Nat.toList_repr]
  have hint : PyText.intOfBytes 10 (ascii (toString status)) = some (status : Int) := by
    rw [PyText.intOfBytes, hlatin]
    apply PyText.intLiteral_toDigits
    calc status < 10 ^ 3 := hs
      _ ≤ 10 ^ PyText.maxStrDigits := Nat.pow_le_pow_right (by decide) (by decide)
  unfold statusCode
  rw [hsplit]
  simp only [hint]

theorem statusLine_line {status : Nat} {reason : Bytes} (hr : CR ∉ reason) :
    CR ∉ statusLine status reason := by
  have hstatus : CR ∉ ascii (toString status) := by
    intro hm
    obtain ⟨c, hc, he⟩ := List.mem_map.mp hm
    rw [Nat.toString_eq_repr, Nat.toList_repr] at hc
    have hrange := digits_plain status c hc
    have hnat := congrArg UInt8.toNat he
    rw [UInt8.toNat_ofNat', Nat.mod_eq_of_lt (by omega)] at hnat
    have hcr : CR.toNat = 13 := rfl
    omega
  have hversion : CR ∉ ascii "HTTP/1.1" := by decide
  have hblank : CR ≠ 0x20 := by decide
  simp only [statusLine, List.mem_append, List.mem_cons, hversion, hstatus, hr, hblank, or_self,
    not_false_eq_true]

theorem lastValue_lowered (fields : List Header) (name : String) :
    lastValue (lowered fields) name = (valuesOf name fields).getLast? := by
  unfold lastValue lowered valuesOf
  rw [List.filter_map, List.getLast?_map, List.getLast?_map, Option.map_map]
  rfl

-- The reader picks the framing that is announced, and reads the body by it.
theorem readBody_encode {fields : List Header} {content : Content} (hwell : content.WellFormed)
    (hann : content.AnnouncedBy fields) (r : Reader) (hr : r.received = content.encode) :
    ∃ r', readBody (lowered fields) r = some (.ok (content.body, r')) := by
  unfold readBody isChunked
  rw [lastValue_lowered, lastValue_lowered]
  cases content with
  | chunked chunks last trailers =>
      obtain ⟨front, value, hvalues, hcoding⟩ := hann
      obtain ⟨hchunks, hlast, _⟩ := hwell
      obtain ⟨r', hread⟩ := readChunks_of_chunks (chunks_encode trailers hchunks hlast) (r.size + 1) [] r hr
        (Nat.lt_succ_self _)
      refine ⟨r', ?_⟩
      rw [hvalues, List.getLast?_concat, Option.getD_some, if_pos (decide_eq_true hcoding.isInfix), hread,
        List.nil_append]
  | counted body =>
      obtain ⟨hte, hne, hall⟩ := hann
      have hvalue := List.getLast?_eq_some_getLast hne
      generalize (valuesOf "content-length" fields).getLast hne = value at hvalue
      obtain rfl := hall value (List.mem_of_getLast? hvalue)
      have hint : PyText.intOfStr 10 (toString body.length).toList = some (body.length : Int) := by
        rw [Nat.toString_eq_repr, Nat.toList_repr, PyText.intOfStr_digits 10 _ Nat.toDigits_ne_nil
          fun c hc => (PyText.isDigit_toDigits hc).1, ← PyText.intLiteral_digits 10 _ Nat.toDigits_ne_nil
          fun c hc => (PyText.isDigit_toDigits hc).1]
        apply PyText.intLiteral_toDigits
        calc body.length < 2 ^ 63 := hwell
          _ ≤ 10 ^ 63 := by decide
          _ ≤ 10 ^ PyText.maxStrDigits := Nat.pow_le_pow_right (by decide) (by decide)
      have hplain : ("chunked".toList <:+: (PyText.lower "").toList) = False := by decide
      refine ⟨(r.readexact body.length).2, ?_⟩
      rw [hte, hvalue]
      simp only [List.getLast?_nil, Option.getD_none, hplain, decide_false, Bool.false_eq_true, ↓reduceIte,
        hint]
      have hread := (r.readexact_of_le body.length (by rw [hr]; exact Nat.le_refl _)).1
      rw [hr] at hread
      have htake : body.take body.length = body := List.take_length
      rw [← Prod.mk.eta (p := r.readexact body.length), hread]
      exact congrArg (fun b => some (Except.ok (b, (r.readexact body.length).2))) htake
  | closed body =>
      obtain ⟨hte, hlength⟩ := hann
      have hplain : ("chunked".toList <:+: (PyText.lower "").toList) = False := by decide
      refine ⟨r.readall.2, ?_⟩
      rw [hte, hlength]
      simp only [List.getLast?_nil, Option.getD_none, hplain, decide_false, Bool.false_eq_true, ↓reduceIte]
      have hread := r.readall_eq
      rw [hr] at hread
      exact congrArg (fun b => some (Except.ok (b, r.readall.2))) hread

theorem received_pieces {pieces : List Bytes} (h : ∀ piece ∈ pieces, piece ≠ []) :
    Reader.received ⟨pieces, []⟩ = pieces.flatten := by
  have hall : pieces.takeWhile (· ≠ []) = pieces := by
    rw [List.takeWhile_eq_self_iff]
    intro piece hp
    simpa using h piece hp
  rw [Reader.received, hall, List.nil_append]

-- Whatever pieces recv gives of an encoded message, the result is the message.
theorem decode_encode (m : Message) (hm : m.WellFormed) (pieces : List Bytes)
    (hpieces : ∀ piece ∈ pieces, piece ≠ []) (hbytes : pieces.flatten = m.encode)
    (write : Bytes → Option Exn) (method path authority : String) (headers : List Header) (body : Body)
    (data : Bytes) (hbody : octets body = some data)
    (hwrite : write (requestBytes method path authority headers data) = none) :
    request ⟨write, pieces⟩ method path authority headers body =
      some (.ok ⟨some m.status, lowered m.fields, m.content.body⟩) := by
  have hreceived := received_pieces hpieces
  rw [hbytes] at hreceived
  have hfirst : splitLine m.encode = some (statusLine m.status m.reason,
      m.fields.flatMap (fun field => encodeField field ++ crlf) ++ crlf ++ m.content.encode) := by
    rw [← splitLine_line (statusLine_line hm.reason)]
    simp [Message.encode]
  obtain ⟨hline, hrest⟩ := Reader.readline_of_split ⟨pieces, []⟩ _ _ (hreceived.symm ▸ hfirst)
  obtain ⟨after, hlines, hcontent⟩ := headerLines_of_fields
    (fields_encode hm.names hm.values m.content.encode) _ hrest
  obtain ⟨r', hread⟩ := readBody_encode hm.content hm.announced after hcontent
  unfold request readResponse
  simp only [hbody, hwrite, hline, statusCode_statusLine hm.status.2,
    readHeaders_of_lines hlines _ (Nat.lt_succ_self _), hread, Option.map_some, Except.map]

-- A chunk with an extension, a trailer, and every octet in a piece of its own.
def chunkedMessage : Message where
  status := 200
  reason := ascii "OK"
  fields := [("X-Kind", "a b"), ("Transfer-Encoding", "gzip, chunked")]
  content := .chunked [⟨ascii "2;a=b", ascii "hi"⟩, ⟨ascii "01 ", [CR]⟩] (ascii "0") [ascii "T: 1"]

theorem onLine_of_all {text : String} (hl : text.toList.all (fun c => c.toNat < 256) = true)
    (hs : '\r' ∉ text.toList) (ht : PyText.strip PyText.isSpace text.toList = text.toList) : OnLine text :=
  ⟨fun c hc => by simpa using List.all_eq_true.mp hl c hc, hs, ht⟩

theorem sizeLine_of_all {line : Bytes} {size : Nat} (digits blanks ext : Bytes)
    (hline : line = digits ++ blanks ++ ext) (hne : digits ≠ []) (hd : digits.all isHexDigit = true)
    (hb : blanks.all (fun b => b = 0x20 || b = 0x09) = true) (he : ext = [] ∨ ext.head? = some SEMICOLON)
    (hsize : size = PyText.ofDigits 16 (PyText.latin1 digits)) : SizeLine line size :=
  ⟨digits, blanks, ext, hline, hne, List.all_eq_true.mp hd,
    fun b hm => by simpa using List.all_eq_true.mp hb b hm, he, hsize⟩

theorem chunkedMessage_wellFormed : chunkedMessage.WellFormed := by
  have honline : ∀ text ∈ ["X-Kind", "a b", "Transfer-Encoding", "gzip, chunked"], OnLine text := by
    simp only [List.forall_mem_cons]
    refine ⟨onLine_of_all ?_ ?_ ?_, onLine_of_all ?_ ?_ ?_, onLine_of_all ?_ ?_ ?_,
      onLine_of_all ?_ ?_ ?_, by simp⟩ <;> decide
  have htwo : SizeLine (ascii "2;a=b") 2 := by
    apply sizeLine_of_all [0x32] [] (ascii ";a=b") <;> decide
  have hone : SizeLine (ascii "01 ") 1 := by
    apply sizeLine_of_all [0x30, 0x31] [0x20] [] <;> decide
  have hzero : SizeLine (ascii "0") 0 := by
    apply sizeLine_of_all [0x30] [] [] <;> decide
  refine ⟨by decide, by decide, ?_, ?_, ⟨?_, ⟨hzero, by decide⟩, by decide⟩, ?_⟩
  · simp only [chunkedMessage, List.forall_mem_cons]
    exact ⟨⟨honline _ (by simp), by decide⟩, ⟨honline _ (by simp), by decide⟩, by simp⟩
  · simp only [chunkedMessage, List.forall_mem_cons]
    exact ⟨honline _ (by simp), honline _ (by simp), by simp⟩
  · simp only [List.forall_mem_cons]
    exact ⟨⟨by decide, htwo, by decide⟩, ⟨by decide, hone, by decide⟩, by simp⟩
  · exact ⟨[], "gzip, chunked", by decide, by decide⟩

theorem decode_chunkedMessage :
    request ⟨fun _ => none, chunkedMessage.encode.map fun b => [b]⟩ "GET" "/" "a.example" [] (.bytes []) =
      some (.ok ⟨some 200, [("x-kind", "a b"), ("transfer-encoding", "gzip, chunked")],
        ascii "hi" ++ [CR]⟩) := by
  have hlowered : lowered chunkedMessage.fields =
      [("x-kind", "a b"), ("transfer-encoding", "gzip, chunked")] := by decide
  rw [← hlowered]
  apply decode_encode chunkedMessage chunkedMessage_wellFormed _ _ _ _ _ _ _ _ _ [] rfl rfl
  · intro piece hp
    obtain ⟨b, _, rfl⟩ := List.mem_map.mp hp
    exact List.cons_ne_nil b []
  · rw [← List.flatMap_def, List.flatMap_singleton']

end NeverFox.Http1
