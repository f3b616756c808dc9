import NeverFox.Http1.Request

namespace NeverFox.Http1

-- The grammar of a complete response, over the octets alone.
-- Field lines up to the empty one, every line ended by CRLF.
inductive Fields : Bytes → List Header → Bytes → Prop
  | blank (bytes content : Bytes) (hs : splitLine bytes = some ([], content)) : Fields bytes [] content
  | field (bytes line rest content : Bytes) (fields : List Header)
      (hs : splitLine bytes = some (line, rest)) (hl : line ≠ []) (hr : Fields rest fields content) :
      Fields bytes (parseField line :: fields) content

def isHexDigit (b : UInt8) : Bool := PyText.isDigit 16 (Char.ofNat b.toNat)

-- 1*HEXDIG, blanks, and a chunk extension behind a semicolon if any.
def SizeLine (line : Bytes) (size : Nat) : Prop :=
  ∃ digits blanks ext, line = digits ++ blanks ++ ext ∧ digits ≠ [] ∧
    (∀ b ∈ digits, isHexDigit b) ∧ (∀ b ∈ blanks, b = 0x20 ∨ b = 0x09) ∧
    (ext = [] ∨ ext.head? = some SEMICOLON) ∧ size = PyText.ofDigits 16 (PyText.latin1 digits)

-- Chunks that are whole and followed by CRLF, up to the size line of the zero chunk.
inductive Chunks : Bytes → Bytes → Prop
  | last (bytes line rest : Bytes) (hs : splitLine bytes = some (line, rest)) (hz : SizeLine line 0) :
      Chunks bytes []
  | chunk (bytes line data rest body : Bytes)
      (hs : splitLine bytes = some (line, data ++ crlf ++ rest)) (hd : data ≠ [])
      (hn : SizeLine line data.length) (hr : Chunks rest body) : Chunks bytes (data ++ body)

-- 1*DIGIT and as many octets.
def Counted (value : String) (content body : Bytes) : Prop :=
  value.toList ≠ [] ∧ (∀ c ∈ value.toList, PyText.isDigit 10 c) ∧
    PyText.ofDigits 10 value.toList ≤ content.length ∧
    body = content.take (PyText.ofDigits 10 value.toList)

inductive Framed (headers : List Header) (content body : Bytes) : Prop
  | chunked (hc : isChunked headers = true) (hb : Chunks content body)
  | counted (hc : isChunked headers = false) (value : String)
      (hv : lastValue headers "content-length" = some value) (hb : Counted value content body)
  | closed (hc : isChunked headers = false) (hv : lastValue headers "content-length" = none)
      (hb : body = content)

def Complete (bytes : Bytes) (headers : List Header) (body : Bytes) : Prop :=
  ∃ statusLine rest content, splitLine bytes = some (statusLine, rest) ∧
    Fields rest headers content ∧ Framed headers content body

-- The reading arrives at a number that int() rejects: the status, the content
-- length, or the size of a chunk.
inductive Rejected (r : Reader) : Prop
  | status (exc : Exn) (hs : statusCode r.readline.1 = .error exc)
  | size (headers : List Header) (r' : Reader) (hh : HeaderLines r.readline.2 headers r')
      (hc : isChunked headers = true) (hr : ChunkRejected r')
  | length (headers : List Header) (r' : Reader) (hh : HeaderLines r.readline.2 headers r')
      (hc : isChunked headers = false) (value : String)
      (hv : lastValue headers "content-length" = some value)
      (hn : PyText.intOfStr 10 value.toList = none)

theorem latin1_digits {base : Nat} {digits : Bytes}
    (hd : ∀ b ∈ digits, PyText.isDigit base (Char.ofNat b.toNat)) :
    ∀ c ∈ PyText.latin1 digits, PyText.isDigit base c := by
  intro c hc
  obtain ⟨b, hb, rfl⟩ := List.mem_map.mp hc
  exact hd b hb

theorem sizeToken_of_sizeLine {digits blanks ext : Bytes} (hne : digits ≠ [])
    (hd : ∀ b ∈ digits, isHexDigit b) (hb : ∀ b ∈ blanks, b = 0x20 ∨ b = 0x09)
    (he : ext = [] ∨ ext.head? = some SEMICOLON) :
    sizeToken (digits ++ blanks ++ ext) = digits := by
  have hsemi : isHexDigit SEMICOLON = false := by decide
  have hdigit : ∀ b ∈ digits, b ≠ SEMICOLON ∧ isBlank b = false := by
    intro b hm
    refine ⟨?_, PyText.digit_not_space (hd b hm)⟩
    rintro rfl
    exact absurd (hd _ hm) (by simp [hsemi])
  have hblank : ∀ b ∈ blanks, b ≠ SEMICOLON ∧ isBlank b = true := by
    intro b hm
    rcases hb b hm with rfl | rfl <;> decide
  have htake : (digits ++ blanks ++ ext).takeWhile (· ≠ SEMICOLON) = digits ++ blanks := by
    have hall : ∀ b ∈ digits ++ blanks, decide (b ≠ SEMICOLON) = true := by
      intro b hm
      rcases List.mem_append.mp hm with hm | hm
      · simpa using (hdigit b hm).1
      · simpa using (hblank b hm).1
    rw [List.takeWhile_append_of_pos hall]
    rcases he with rfl | he
    · simp
    · obtain ⟨tail, rfl⟩ := List.head?_eq_some_iff.mp he
      simp
  have hdrop : (digits ++ blanks).dropWhile isBlank = digits ++ blanks := by
    obtain ⟨b, rest, rfl⟩ := List.exists_cons_of_ne_nil hne
    simp [(hdigit b (by simp)).2]
  have hrdrop : (digits ++ blanks).rdropWhile isBlank = digits := by
    rw [List.rdropWhile, List.reverse_append, List.dropWhile_append_of_pos]
    · rw [List.dropWhile_eq_self_iff.mpr, List.reverse_reverse]
      intro hpos
      have hlast := (hdigit _ (List.mem_reverse.mp (List.getElem_mem hpos))).2
      rw [hlast]
      exact Bool.false_ne_true
    · intro b hm
      exact (hblank b (List.mem_reverse.mp hm)).2
  unfold sizeToken
  simp only [htake, hdrop, hrdrop, hne, ↓reduceIte]

theorem chunkSize_of_sizeLine {line : Bytes} {size : Nat} (h : SizeLine line size) :
    chunkSize line = some (size : Int) := by
  obtain ⟨digits, blanks, ext, rfl, hne, hd, hb, he, rfl⟩ := h
  have hne' : PyText.latin1 digits ≠ [] := by simpa [PyText.latin1] using hne
  rw [chunkSize, sizeToken_of_sizeLine hne hd hb he, PyText.intOfBytes,
    PyText.intLiteral_digits 16 _ hne' (latin1_digits hd)]
  simp

-- The reader finds the lines and chunks that the grammar describes.
theorem headerLines_of_fields {bytes content : Bytes} {fields : List Header}
    (h : Fields bytes fields content) (r : Reader) (hr : r.received = bytes) :
    ∃ r', HeaderLines r fields r' ∧ r'.received = content := by
  induction h generalizing r with
  | blank bytes content hs =>
      obtain ⟨hl, hrest⟩ := r.readline_of_split [] content (hr ▸ hs)
      exact ⟨_, .blank r hl, hrest⟩
  | field bytes line rest content fields hs hl _ ih =>
      obtain ⟨rfl, hrest⟩ := r.readline_of_split line rest (hr ▸ hs)
      obtain ⟨r', hlines, hcontent⟩ := ih r.readline.2 hrest
      exact ⟨r', .field r r' fields hl hlines, hcontent⟩

theorem readChunks_of_chunks {bytes body : Bytes} (h : Chunks bytes body) (fuel : Nat) (out : Bytes)
    (r : Reader) (hr : r.received = bytes) (hf : r.size < fuel) :
    ∃ r', readChunks fuel out r = some (.ok (out ++ body, r')) := by
  induction h generalizing fuel out r with
  | last bytes line rest hs hz =>
      obtain ⟨rfl, _⟩ := r.readline_of_split line rest (hr ▸ hs)
      obtain ⟨fuel, rfl⟩ : ∃ n, fuel = n + 1 := ⟨fuel - 1, by omega⟩
      obtain ⟨r', ht⟩ := readTrailers_total _ r.readline.2 (Nat.lt_succ_self _)
      refine ⟨r', ?_⟩
      simp [readChunks, chunkSize_of_sizeLine hz, ht]
  | chunk bytes line data rest body hs hd hn _ ih =>
      obtain ⟨rfl, hrest⟩ := r.readline_of_split line _ (hr ▸ hs)
      obtain ⟨fuel, rfl⟩ : ∃ n, fuel = n + 1 := ⟨fuel - 1, by omega⟩
      have hsize := chunkSize_of_sizeLine hn
      have hl : r.readline.1 ≠ [] := by
        intro hl
        rw [hl, chunkSize_nil] at hsize
        have hlen := List.length_pos_of_ne_nil hd
        simp at hsize
        omega
      have hlt := size_lt_of_line hl
      have hle := size_afterChunk r data.length
      have hdata := r.readline.2.readexact_of_le data.length (by simp [hrest])
      rw [hrest, List.append_assoc, List.take_left, List.drop_left] at hdata
      have hcrlf := (r.readline.2.readexact data.length).2.readexact_of_le 2 (by
        rw [hdata.2]
        simp [crlf])
      rw [hdata.2] at hcrlf
      have hafter : (r.afterChunk data.length).received = rest := hcrlf.2
      obtain ⟨r', hread⟩ := ih fuel (out ++ data) (r.afterChunk data.length) hafter (by omega)
      refine ⟨r', ?_⟩
      have hz : (data.length : Int) ≠ 0 := by
        have hlen := List.length_pos_of_ne_nil hd
        omega
      unfold readChunks
      simp only [hsize, hz, ↓reduceIte, hdata.1]
      rw [← List.append_assoc]
      exact hread

-- What the body reader returns of a framed content is the body framed.
theorem readBody_of_framed {headers : List Header} {content body : Bytes} (r : Reader)
    (hr : r.received = content) (h : Framed headers content body) {result : Bytes × Reader}
    (hread : readBody headers r = some (.ok result)) : result.1 = body := by
  unfold readBody at hread
  cases h with
  | chunked hc hb =>
      obtain ⟨r', hchunks⟩ := readChunks_of_chunks hb (r.size + 1) [] r hr (Nat.lt_succ_self _)
      simp only [hc, ↓reduceIte, hchunks, Option.some.injEq, Except.ok.injEq] at hread
      simp [← hread]
  | closed hc hv hb =>
      simp only [hc, hv, Bool.false_eq_true, ↓reduceIte, Option.some.injEq, Except.ok.injEq] at hread
      rw [← hread, r.readall_eq, hr, hb]
  | counted hc value hv hb =>
      obtain ⟨hne, hdigits, hle, rfl⟩ := hb
      simp only [hc, hv, Bool.false_eq_true, ↓reduceIte] at hread
      rw [PyText.intOfStr_digits 10 _ hne hdigits] at hread
      split at hread
      · rename_i heq
        split at heq
        · cases heq
        · simp only [Option.some.injEq, Except.ok.injEq] at heq hread
          rw [← hread, ← heq, (r.readexact_of_le _ (hr ▸ hle)).1, hr]
      · simp at hread

-- A body reader raises exactly on the numbers it cannot read.
theorem readBody_cases (headers : List Header) (r : Reader) :
    ((∃ result, readBody headers r = some (.ok result)) ∧
        ¬((isChunked headers = true ∧ ChunkRejected r) ∨ isChunked headers = false ∧
          ∃ value, lastValue headers "content-length" = some value ∧
            PyText.intOfStr 10 value.toList = none)) ∨
      (readBody headers r = some (.error .valueError) ∧
        ((isChunked headers = true ∧ ChunkRejected r) ∨ isChunked headers = false ∧
          ∃ value, lastValue headers "content-length" = some value ∧
            PyText.intOfStr 10 value.toList = none)) := by
  unfold readBody
  by_cases hc : isChunked headers = true
  · simp only [hc, ↓reduceIte]
    rcases readChunks_total (r.size + 1) [] r (Nat.lt_succ_self _) with ⟨⟨body, r', hok⟩, hno⟩ | ⟨herr, hr⟩
    · exact .inl ⟨⟨_, hok⟩, by simp [hno]⟩
    · exact .inr ⟨herr, by simp [hr]⟩
  · simp only [hc, Bool.false_eq_true, ↓reduceIte]
    cases hv : lastValue headers "content-length" with
    | none => simp
    | some value => cases hn : PyText.intOfStr 10 value.toList <;> simp [hn]

theorem headerLines_unique {r r₁ r₂ : Reader} {fields₁ fields₂ : List Header}
    (h₁ : HeaderLines r fields₁ r₁) (h₂ : HeaderLines r fields₂ r₂) : fields₁ = fields₂ ∧ r₁ = r₂ := by
  have hread₁ := readHeaders_of_lines h₁ (r.size + 1) (Nat.lt_succ_self _)
  have hread₂ := readHeaders_of_lines h₂ (r.size + 1) (Nat.lt_succ_self _)
  simpa [hread₁] using hread₂

theorem readResponse_cases (r : Reader) :
    ((∃ resp r', readResponse r = some (.ok (resp, r'))) ∧ ¬Rejected r) ∨
      ((∃ exc, readResponse r = some (.error exc)) ∧ Rejected r) := by
  unfold readResponse
  dsimp only
  cases hs : statusCode r.readline.1 with
  | error exc => exact .inr ⟨⟨exc, rfl⟩, .status exc hs⟩
  | ok status =>
      obtain ⟨headers, r', hlines⟩ := headerLines_exists r.readline.2
      rw [readHeaders_of_lines hlines _ (Nat.lt_succ_self _)]
      dsimp only
      rcases readBody_cases headers r' with ⟨⟨result, hok⟩, hno⟩ | ⟨herr, hrej⟩
      · refine .inl ⟨⟨⟨some status, headers, result.1⟩, result.2, by simp [hok, Except.map]⟩, ?_⟩
        rintro (⟨exc, hexc⟩ | ⟨headers', r'', hh, hc, hr⟩ | ⟨headers', r'', hh, hc, value, hv, hn⟩)
        · simp [hs] at hexc
        · obtain ⟨rfl, rfl⟩ := headerLines_unique hlines hh
          exact hno (.inl ⟨hc, hr⟩)
        · obtain ⟨rfl, rfl⟩ := headerLines_unique hlines hh
          exact hno (.inr ⟨hc, value, hv, hn⟩)
      · refine .inr ⟨⟨.valueError, by simp [herr, Except.map]⟩, ?_⟩
        rcases hrej with ⟨hc, hr⟩ | ⟨hc, value, hv, hn⟩
        · exact .size headers r' hlines hc hr
        · exact .length headers r' hlines hc value hv hn

-- Of a complete response, what is returned is its header list and its body.
theorem readResponse_of_complete {headers : List Header} {body : Bytes} (r : Reader)
    (h : Complete r.received headers body) {resp : RawResponse} {r' : Reader}
    (hread : readResponse r = some (.ok (resp, r'))) : resp.headers = headers ∧ resp.body = body := by
  obtain ⟨statusLine, rest, content, hs, hfields, hframed⟩ := h
  obtain ⟨rfl, hrest⟩ := r.readline_of_split statusLine rest hs
  obtain ⟨after, hlines, hcontent⟩ := headerLines_of_fields hfields r.readline.2 hrest
  unfold readResponse at hread
  dsimp only at hread
  split at hread
  · simp at hread
  · rw [readHeaders_of_lines hlines _ (Nat.lt_succ_self _)] at hread
    dsimp only at hread
    rcases readBody_cases headers after with ⟨⟨result, hok⟩, _⟩ | ⟨herr, _⟩
    · have hbody := readBody_of_framed after hcontent hframed hok
      simp only [hok, Option.map_some, Except.map, Option.some.injEq, Except.ok.injEq,
        Prod.mk.injEq] at hread
      simp [← hread.1, hbody]
    · simp [herr, Except.map] at hread

-- The request is never written: its body is not octets or the write raises.
def Unwritten (tp : Exchange) (method path authority : String) (headers : List Header)
    (body : Body) : Prop :=
  ∀ data, octets body = some data →
    tp.write (requestBytes method path authority headers data) ≠ none

-- The exchange always ends, and it returns nothing but complete responses
-- exactly when what it received is complete, or it raised: over the request, or
-- over a number in the response.
theorem returned_complete_iff (tp : Exchange) (method path authority : String)
    (headers : List Header) (body : Body) :
    (∃ result, request tp method path authority headers body = some result) ∧
    ((∀ resp, request tp method path authority headers body = some (.ok resp) →
        Complete (Reader.received ⟨tp.results, []⟩) resp.headers resp.body) ↔
      (∃ fields content, Complete (Reader.received ⟨tp.results, []⟩) fields content) ∨
        Unwritten tp method path authority headers body ∨ Rejected ⟨tp.results, []⟩) := by
  unfold request Unwritten
  cases ho : octets body with
  | none => simp
  | some data =>
      dsimp only
      cases hw : tp.write (requestBytes method path authority headers data) with
      | some exc => simp [hw]
      | none =>
          rcases readResponse_cases ⟨tp.results, []⟩ with ⟨⟨resp, r', hok⟩, hno⟩ | ⟨⟨exc, herr⟩, hrej⟩
          · rw [hok]
            refine ⟨⟨_, rfl⟩, ?_⟩
            constructor
            · intro h
              exact .inl ⟨_, _, h resp rfl⟩
            · rintro (⟨fields, content, hc⟩ | hu | hrej)
              · rintro resp' he
                obtain rfl : resp = resp' := by simpa [Except.map] using he
                obtain ⟨rfl, rfl⟩ := readResponse_of_complete _ hc hok
                exact hc
              · exact absurd hw (hu data rfl)
              · exact absurd hrej hno
          · rw [herr]
            exact ⟨⟨_, rfl⟩, by simp [Except.map, hrej]⟩

theorem Counted.length {value : String} {content body : Bytes} (h : Counted value content body) :
    body.length = PyText.ofDigits 10 value.toList := by
  obtain ⟨_, _, hle, rfl⟩ := h
  exact List.length_take_of_le hle

def ascii (text : String) : Bytes := text.toList.map fun c => UInt8.ofNat c.toNat

-- Two octets of five, then the end of the stream.
def shortExchange : Exchange :=
  ⟨fun _ => none, [ascii "HTTP/1.1 200 OK\r\nContent-Length: 5\r\n\r\nab"]⟩

theorem shortExchange_returns :
    request shortExchange "GET" "/" "a.example" [] (.bytes []) =
      some (.ok ⟨some 200, [("content-length", "5")], ascii "ab"⟩) := by
  decide +kernel

theorem short_body_returned :
    ∃ resp, request shortExchange "GET" "/" "a.example" [] (.bytes []) = some (.ok resp) ∧
      ¬Complete (Reader.received ⟨shortExchange.results, []⟩) resp.headers resp.body := by
  refine ⟨_, shortExchange_returns, ?_⟩
  rintro ⟨_, _, content, _, _, hframed⟩
  have hplain : isChunked [("content-length", "5")] = false := by decide +kernel
  have hvalue : lastValue [("content-length", "5")] "content-length" = some "5" := by decide +kernel
  have hcounted : Counted "5" content (ascii "ab") := by
    cases hframed with
    | chunked hc _ => simp [hplain] at hc
    | closed _ hv _ => simp [hvalue] at hv
    | counted _ value hv hb =>
        obtain rfl : "5" = value := by simpa [hvalue] using hv
        exact hb
  have hfive : PyText.ofDigits 10 "5".toList = 5 := by decide +kernel
  have htwo : (ascii "ab").length = 2 := by decide +kernel
  have hlen := hcounted.length
  omega

end NeverFox.Http1
