import NeverFox.Http1.RoundTrip

namespace NeverFox.Http1

-- The octets a reader has before what recv returns after them.
def Reader.Holds (r : Reader) (bytes : Bytes) (more : List Bytes) : Prop :=
  ∃ pieces, (∀ piece ∈ pieces, piece ≠ []) ∧ r.results = pieces ++ more ∧ r.buf ++ pieces.flatten = bytes

-- RFC 9112, section 6.3: a response that ends with its header section.
def Bodyless (method : String) (status : Int) : Prop :=
  method = "HEAD" ∨ (100 ≤ status ∧ status < 200) ∨ status = 204 ∨ status = 304 ∨
    (method = "CONNECT" ∧ 200 ≤ status ∧ status < 300)

instance (method : String) (status : Int) : Decidable (Bodyless method status) := by
  unfold Bodyless
  infer_instance

-- The last of the codings in a Transfer-Encoding value.
def finalCoding (value : String) : List Char :=
  PyText.strip PyText.isAsciiSpace ((PyText.lower value).toList.rtakeWhile (· ≠ ','))

-- Chunks up to the blank line behind the trailers, and nothing more.
inductive WholeChunks : Bytes → Prop
  | last (bytes line rest : Bytes) (trailers : List Header) (hs : splitLine bytes = some (line, rest))
      (hz : SizeLine line 0) (ht : Fields rest trailers []) : WholeChunks bytes
  | chunk (bytes line data rest : Bytes) (hs : splitLine bytes = some (line, data ++ crlf ++ rest))
      (hd : data ≠ []) (hn : SizeLine line data.length) (hr : WholeChunks rest) : WholeChunks bytes

-- What stands behind the header section of a whole response that is not
-- ended by closing the connection.
inductive Delimited (method : String) (status : Int) (fields : List Header) (content : Bytes) : Prop
  | bodyless (hb : Bodyless method status) (hc : content = [])
  | chunked (hb : ¬Bodyless method status) (value : String)
      (hv : lastValue fields "transfer-encoding" = some value) (hf : finalCoding value = "chunked".toList)
      (hc : WholeChunks content)
  | counted (hb : ¬Bodyless method status) (hv : lastValue fields "transfer-encoding" = none)
      (hne : ∃ field ∈ fields, field.1 = "content-length")
      (hall : ∀ field ∈ fields, field.1 = "content-length" → field.2.toList ≠ [] ∧
        (∀ c ∈ field.2.toList, PyText.isDigit 10 c) ∧ PyText.ofDigits 10 field.2.toList = content.length)

structure ResponseTo (method : String) (bytes : Bytes) (status : Int) (fields : List Header)
    (content : Bytes) : Prop where
  head : ∃ line rest, splitLine bytes = some (line, rest) ∧ statusCode line = .ok status ∧
    Fields rest fields content
  delimited : Delimited method status fields content

-- The fields alone ask for no octet behind the header section.
def AsksNothing (fields : List Header) : Prop :=
  isChunked fields = false ∧ ∃ value n, lastValue fields "content-length" = some value ∧
    PyText.intOfStr 10 value.toList = some n ∧ n ≤ 0

-- The number int() makes of the length, where the length is what counts.
def LengthRead (fields : List Header) : Prop :=
  isChunked fields = false → ∀ value, lastValue fields "content-length" = some value →
    PyText.intOfStr 10 value.toList ≠ none

namespace Reader

theorem holds_pieces {pieces : List Bytes} (h : ∀ piece ∈ pieces, piece ≠ []) (more : List Bytes) :
    Holds ⟨pieces ++ more, []⟩ pieces.flatten more := ⟨pieces, h, rfl, rfl⟩

theorem Holds.behind {results : List Bytes} {ahead : Bytes} {more : List Bytes}
    (h : Holds ⟨results, []⟩ ahead more) (buf : Bytes) : Holds ⟨results, buf⟩ (buf ++ ahead) more := by
  obtain ⟨pieces, hne, hresults, rfl⟩ := h
  exact ⟨pieces, hne, hresults, rfl⟩

-- Induction over what recv returns, one piece at a time.
theorem Holds.induction {bytes : Bytes} {more : List Bytes} {motive : Bytes → List Bytes → Prop}
    (last : motive bytes more)
    (piece : ∀ buf b tail results ahead, Holds ⟨(b :: tail) :: results, []⟩ ahead more →
      buf ++ ahead = bytes → motive (buf ++ b :: tail) results → motive buf ((b :: tail) :: results))
    {r : Reader} (h : r.Holds bytes more) : motive r.buf r.results := by
  obtain ⟨results, buf⟩ := r
  obtain ⟨pieces, hne, hresults, hbytes⟩ := h
  dsimp only at hresults hbytes ⊢
  subst hresults
  induction pieces generalizing buf with
  | nil =>
      rw [List.flatten_nil, List.append_nil] at hbytes
      subst hbytes
      exact last
  | cons data pieces ih =>
      cases data with
      | nil => exact absurd rfl (hne [] List.mem_cons_self)
      | cons b tail =>
          refine piece buf b tail _ _ ⟨(b :: tail) :: pieces, hne, rfl, rfl⟩ hbytes ?_
          apply ih (buf ++ b :: tail) (fun p hp => hne p (List.mem_cons_of_mem _ hp))
          rw [← hbytes, List.flatten_cons, List.append_assoc]

theorem readline_holds {r : Reader} {bytes line rest : Bytes} {more : List Bytes}
    (h : r.Holds bytes more) (hs : splitLine bytes = some (line, rest)) :
    r.readline.1 = line ∧ r.readline.2.Holds rest more := by
  unfold readline
  refine h.induction (motive := fun buf results => (readlineLoop buf results).1 = line ∧
    (readlineLoop buf results).2.Holds rest more) ?_ ?_
  · unfold readlineLoop
    rw [hs]
    exact ⟨rfl, [], by simp, rfl, by simp⟩
  · intro buf b tail results ahead hahead hbytes ih
    unfold readlineLoop
    cases hb : splitLine buf with
    | some split =>
        obtain ⟨line', rest'⟩ := split
        have hmore := splitLine_append buf ahead line' rest' hb
        rw [hbytes] at hmore
        obtain ⟨rfl, rfl⟩ := Prod.mk.inj (Option.some.inj (hs.symm.trans hmore))
        exact ⟨rfl, hahead.behind rest'⟩
    | none => exact ih

-- Without a line end in them the reader asks for more.
theorem readline_waits {r : Reader} {bytes : Bytes} {more : List Bytes} (h : r.Holds bytes ([] :: more))
    (hs : splitLine bytes = none) : r.readline = (bytes, ⟨more, []⟩) := by
  unfold readline
  refine h.induction (motive := fun buf results => readlineLoop buf results = (bytes, ⟨more, []⟩)) ?_ ?_
  · unfold readlineLoop
    rw [hs]
  · intro buf b tail results ahead _ hbytes ih
    unfold readlineLoop
    cases hb : splitLine buf with
    | some split =>
        have hmore := splitLine_append buf ahead split.1 split.2 hb
        rw [hbytes, hs] at hmore
        cases hmore
    | none => exact ih

theorem readexact_holds {r : Reader} {bytes : Bytes} {more : List Bytes} (h : r.Holds bytes more) {n : Int}
    (hn : n ≤ bytes.length) :
    ∃ rest, (r.readexact n).2.Holds rest more ∧ ∀ k : Nat, n = k → rest = bytes.drop k := by
  unfold readexact
  refine h.induction (motive := fun buf results => ∃ rest, (readexactLoop n buf results).2.Holds rest more ∧
    ∀ k : Nat, n = k → rest = bytes.drop k) ?_ ?_
  · unfold readexactLoop
    rw [if_pos hn]
    refine ⟨_, ⟨[], by simp, rfl, rfl⟩, ?_⟩
    rintro k rfl
    have hneg : ¬((k : Int) < 0) := by omega
    simp [cut, sliceEnd, hneg]
  · intro buf b tail results ahead hahead hbytes ih
    unfold readexactLoop
    split
    · rename_i hle
      refine ⟨_, hahead.behind _, ?_⟩
      rintro k rfl
      have hneg : ¬((k : Int) < 0) := by omega
      rw [← hbytes, List.drop_append_of_le_length (by omega)]
      simp [sliceEnd, hneg]
    · exact ih

theorem readexact_waits {r : Reader} {bytes : Bytes} {more : List Bytes} (h : r.Holds bytes ([] :: more))
    {n : Int} (hn : bytes.length < n) : (r.readexact n).2.results = more := by
  unfold readexact
  refine h.induction (motive := fun buf results => (readexactLoop n buf results).2.results = more) ?_ ?_
  · unfold readexactLoop
    rw [if_neg (by omega)]
    rfl
  · intro buf b tail results ahead _ hbytes ih
    have hlen := congrArg List.length hbytes
    rw [List.length_append] at hlen
    unfold readexactLoop
    rw [if_neg (by omega)]
    exact ih

theorem readall_waits {r : Reader} {bytes : Bytes} {more : List Bytes} (h : r.Holds bytes ([] :: more)) :
    r.readall.2.results = more :=
  h.induction (motive := fun buf results => (readallLoop buf results).2.results = more) rfl
    fun _ _ _ _ _ _ _ ih => ih

theorem Holds.suffix {r : Reader} {bytes : Bytes} {more : List Bytes} (h : r.Holds bytes more) :
    more <:+ r.results := by
  obtain ⟨pieces, _, hresults, _⟩ := h
  rw [hresults]
  exact List.suffix_append pieces more

end Reader

theorem headerLines_holds {bytes content : Bytes} {fields : List Header} {more : List Bytes}
    (h : Fields bytes fields content) (r : Reader) (hr : r.Holds bytes more) :
    ∃ r', HeaderLines r fields r' ∧ r'.Holds content more := by
  induction h generalizing r with
  | blank bytes content hs =>
      obtain ⟨hl, hrest⟩ := Reader.readline_holds hr hs
      exact ⟨_, .blank r hl, hrest⟩
  | field bytes line rest content fields hs hl _ ih =>
      obtain ⟨rfl, hrest⟩ := Reader.readline_holds hr hs
      obtain ⟨r', hlines, hcontent⟩ := ih r.readline.2 hrest
      exact ⟨r', .field r r' fields hl hlines, hcontent⟩

theorem readTrailers_holds {bytes content : Bytes} {trailers : List Header} {more : List Bytes}
    (h : Fields bytes trailers content) (r : Reader) (hr : r.Holds bytes more) (fuel : Nat)
    (hf : r.size < fuel) : ∃ r', readTrailers fuel r = some r' ∧ r'.Holds content more := by
  induction h generalizing r fuel with
  | blank bytes content hs =>
      obtain ⟨hl, hrest⟩ := Reader.readline_holds hr hs
      obtain ⟨fuel, rfl⟩ : ∃ n, fuel = n + 1 := ⟨fuel - 1, by omega⟩
      refine ⟨r.readline.2, ?_, hrest⟩
      simp only [readTrailers, hl, ↓reduceIte]
  | field bytes line rest content fields hs hl _ ih =>
      obtain ⟨rfl, hrest⟩ := Reader.readline_holds hr hs
      have hlt := size_lt_of_line hl
      obtain ⟨fuel, rfl⟩ : ∃ n, fuel = n + 1 := ⟨fuel - 1, by omega⟩
      obtain ⟨r', hread, hcontent⟩ := ih r.readline.2 hrest fuel (by omega)
      refine ⟨r', ?_, hcontent⟩
      simp only [readTrailers, hl, ↓reduceIte, hread]

-- The chunk loop stops behind the blank line of the trailers.
theorem readChunks_holds {bytes : Bytes} {more : List Bytes} (h : WholeChunks bytes) (fuel : Nat)
    (out : Bytes) (r : Reader) (hr : r.Holds bytes more) (hf : r.size < fuel) :
    ∃ body r', readChunks fuel out r = some (.ok (body, r')) ∧ r'.Holds [] more := by
  induction h generalizing fuel out r with
  | last bytes line rest trailers hs hz ht =>
      obtain ⟨rfl, hrest⟩ := Reader.readline_holds hr hs
      obtain ⟨fuel, rfl⟩ : ∃ n, fuel = n + 1 := ⟨fuel - 1, by omega⟩
      obtain ⟨r', hread, hend⟩ := readTrailers_holds ht _ hrest _ (Nat.lt_succ_self _)
      refine ⟨out, r', ?_, hend⟩
      simp [readChunks, chunkSize_of_sizeLine hz, hread]
  | chunk bytes line data rest hs hd hn _ ih =>
      obtain ⟨rfl, hrest⟩ := Reader.readline_holds hr hs
      obtain ⟨fuel, rfl⟩ : ∃ n, fuel = n + 1 := ⟨fuel - 1, by omega⟩
      have hsize := chunkSize_of_sizeLine hn
      have hlen := List.length_pos_of_ne_nil hd
      have hl : r.readline.1 ≠ [] := by
        intro hl
        rw [hl, chunkSize_nil, Option.some.injEq] at hsize
        omega
      have hlt := size_lt_of_line hl
      have hle := size_afterChunk r data.length
      obtain ⟨behind, hdata, hdrop⟩ := Reader.readexact_holds hrest (n := data.length) (by
        simp only [List.length_append]
        omega)
      obtain rfl : behind = crlf ++ rest := by rw [hdrop _ rfl, List.append_assoc, List.drop_left]
      obtain ⟨left, hcrlf, hdrop⟩ := Reader.readexact_holds hdata (n := 2) (by
        simp only [crlf, List.length_append, List.length_cons, List.length_nil]
        omega)
      obtain rfl : left = rest := hdrop 2 rfl
      obtain ⟨body, r', hread, hend⟩ := ih fuel (out ++ (r.readline.2.readexact data.length).1)
        (r.afterChunk data.length) hcrlf (by omega)
      refine ⟨body, r', ?_, hend⟩
      have hz : (data.length : Int) ≠ 0 := by omega
      unfold readChunks
      simp only [hsize, hz, ↓reduceIte]
      exact hread

theorem lastValue_of_field {fields : List Header} {name : String} (h : ∃ field ∈ fields, field.1 = name) :
    ∃ field ∈ fields, field.1 = name ∧ lastValue fields name = some field.2 := by
  obtain ⟨field, hf, hname⟩ := h
  have hmem : field ∈ fields.filter fun field => field.1 = name :=
    List.mem_filter.mpr ⟨hf, decide_eq_true hname⟩
  have hlast := List.getLast?_eq_some_getLast (List.ne_nil_of_mem hmem)
  generalize (fields.filter fun field => field.1 = name).getLast _ = last at hlast
  obtain ⟨hin, heq⟩ := List.mem_filter.mp (List.mem_of_getLast? hlast)
  refine ⟨last, hin, of_decide_eq_true heq, ?_⟩
  rw [lastValue, hlast, Option.map_some]

theorem isChunked_of_finalCoding {fields : List Header} {value : String}
    (hv : lastValue fields "transfer-encoding" = some value) (hf : finalCoding value = "chunked".toList) :
    isChunked fields = true := by
  unfold isChunked
  rw [hv, Option.getD_some, ← hf, decide_eq_true_eq]
  have hfront := List.rdropWhile_prefix PyText.isAsciiSpace
    (((PyText.lower value).toList.rtakeWhile (· ≠ ',')).dropWhile PyText.isAsciiSpace)
  have hback := List.dropWhile_suffix PyText.isAsciiSpace (l := (PyText.lower value).toList.rtakeWhile (· ≠ ','))
  have hlast := List.rtakeWhile_suffix (· ≠ ',') (PyText.lower value).toList
  calc finalCoding value
    _ <:+: ((PyText.lower value).toList.rtakeWhile (· ≠ ',')).dropWhile PyText.isAsciiSpace := hfront.isInfix
    _ <:+: (PyText.lower value).toList.rtakeWhile (· ≠ ',') := hback.isInfix
    _ <:+: (PyText.lower value).toList := hlast.isInfix

-- The exchange returns a response, and none of what recv would return behind
-- the octets of the message is taken.
def Prompt (write : Bytes → Option Exn) (pieces : List Bytes) (method path authority : String)
    (headers : List Header) (body : Body) : Prop :=
  ∀ more, ∃ resp r', readResponse ⟨pieces ++ more, []⟩ = some (.ok (resp, r')) ∧ more <:+ r'.results ∧
    request ⟨write, pieces ++ more⟩ method path authority headers body = some (.ok resp)

-- A body reader that asks for more than there is takes what recv returns next.
theorem readBody_waits {fields : List Header} {r : Reader} (hr : r.Holds [] [[]])
    (hno : ¬AsksNothing fields) {data : Bytes} {r' : Reader}
    (hread : readBody fields r = some (.ok (data, r'))) : r'.results = [] := by
  unfold readBody at hread
  split at hread
  · have hwait := Reader.readline_waits hr rfl
    have hend : Reader.readline ⟨[], []⟩ = ([], ⟨[], []⟩) := rfl
    unfold readChunks at hread
    simp only [hwait, chunkSize_nil, ↓reduceIte] at hread
    unfold readTrailers at hread
    simp only [hend, ↓reduceIte, Option.map_some, Option.some.injEq, Except.ok.injEq, Prod.mk.injEq] at hread
    rw [← hread.2]
  · rename_i hc
    cases hv : lastValue fields "content-length" with
    | none =>
        rw [hv] at hread
        have hwait := Reader.readall_waits hr
        simp only [Option.some.injEq, Except.ok.injEq] at hread
        rw [hread] at hwait
        exact hwait
    | some value =>
        rw [hv] at hread
        dsimp only at hread
        cases hn : PyText.intOfStr 10 value.toList with
        | none => simp [hn] at hread
        | some n =>
            have hpos : (([] : Bytes).length : Int) < n := by
              apply Int.not_le.mp
              intro hle
              exact hno ⟨by simpa using hc, value, n, hv, hn, hle⟩
            have hwait := Reader.readexact_waits hr hpos
            simp only [hn, Option.some.injEq, Except.ok.injEq] at hread
            rw [hread] at hwait
            exact hwait

theorem readBody_holds {method : String} {status : Int} {fields : List Header} {content : Bytes}
    {more : List Bytes} (hd : Delimited method status fields content) (r : Reader)
    (hr : r.Holds content more)
    (hok : if Bodyless method status then AsksNothing fields else LengthRead fields) :
    ∃ data r' bytes, readBody fields r = some (.ok (data, r')) ∧ r'.Holds bytes more := by
  unfold readBody
  cases hd with
  | bodyless hb hc =>
      rw [if_pos hb] at hok
      obtain ⟨hplain, value, n, hv, hn, hle⟩ := hok
      obtain ⟨rest, hread, _⟩ := Reader.readexact_holds hr (n := n) (by omega)
      refine ⟨(r.readexact n).1, _, rest, ?_, hread⟩
      simp only [hplain, Bool.false_eq_true, ↓reduceIte, hv, hn]
  | chunked hb value hv hf hc =>
      obtain ⟨body, r', hread, hend⟩ := readChunks_holds hc (r.size + 1) [] r hr (Nat.lt_succ_self _)
      refine ⟨body, r', [], ?_, hend⟩
      rw [if_pos (isChunked_of_finalCoding hv hf), hread]
  | counted hb hv hne hall =>
      rw [if_neg hb] at hok
      have hplain : isChunked fields = false := by
        unfold isChunked
        rw [hv]
        decide
      obtain ⟨field, hin, hname, hvalue⟩ := lastValue_of_field hne
      obtain ⟨hdigits, hall, hlen⟩ := hall field hin hname
      have hn : PyText.intOfStr 10 field.2.toList = some (content.length : Int) := by
        have hlit := PyText.intOfStr_digits 10 _ hdigits hall
        split at hlit
        · exact absurd hlit (hok hplain field.2 hvalue)
        · rw [hlit, hlen]
      obtain ⟨rest, hread, _⟩ := Reader.readexact_holds hr (n := content.length) (Int.le_refl _)
      refine ⟨(r.readexact content.length).1, _, rest, ?_, hread⟩
      simp only [hplain, Bool.false_eq_true, ↓reduceIte, hvalue, hn]

-- Up to the header section a response is read alike, whatever comes behind it.
theorem readResponse_head {method : String} {bytes content : Bytes} {status : Int} {fields : List Header}
    (h : ResponseTo method bytes status fields content) (r : Reader) {more : List Bytes}
    (hr : r.Holds bytes more) :
    ∃ r', r'.Holds content more ∧ readResponse r = (readBody fields r').map fun result =>
      result.map fun body => (⟨some status, fields, body.1⟩, body.2) := by
  obtain ⟨line, rest, hs, hstatus, hfields⟩ := h.head
  obtain ⟨rfl, hrest⟩ := Reader.readline_holds hr hs
  obtain ⟨r', hlines, hcontent⟩ := headerLines_holds hfields _ hrest
  refine ⟨r', hcontent, ?_⟩
  unfold readResponse
  simp only [hstatus, readHeaders_of_lines hlines _ (Nat.lt_succ_self _)]

theorem request_written {tp : Exchange} {method path authority : String} {headers : List Header}
    {body : Body} {data : Bytes} (hbody : octets body = some data)
    (hwrite : tp.write (requestBytes method path authority headers data) = none) :
    request tp method path authority headers body =
      (readResponse ⟨tp.results, []⟩).map fun result => result.map Prod.fst := by
  unfold request
  simp only [hbody, hwrite]

-- The exchange returns without another recv exactly when the response has
-- content, or its fields alone announce that it has none.
theorem prompt_iff {method : String} {bytes content : Bytes} {status : Int} {fields : List Header}
    (h : ResponseTo method bytes status fields content) (pieces : List Bytes)
    (hpieces : ∀ piece ∈ pieces, piece ≠ []) (hbytes : pieces.flatten = bytes) (write : Bytes → Option Exn)
    (path authority : String) (headers : List Header) (body : Body) (data : Bytes)
    (hbody : octets body = some data)
    (hwrite : write (requestBytes method path authority headers data) = none) :
    Prompt write pieces method path authority headers body ↔
      if Bodyless method status then AsksNothing fields else LengthRead fields := by
  subst hbytes
  constructor
  · intro hprompt
    split
    · rename_i hb
      by_contra hno
      obtain ⟨resp, r', hread, hleft, _⟩ := hprompt [[]]
      obtain ⟨after, hafter, hresp⟩ := readResponse_head h _ (Reader.holds_pieces hpieces [[]])
      obtain rfl : content = [] := by
        cases h.delimited with
        | bodyless _ hc => exact hc
        | chunked hno => exact absurd hb hno
        | counted hno => exact absurd hb hno
      rw [hresp] at hread
      rcases readBody_cases fields after with ⟨⟨⟨data, behind⟩, hok⟩, _⟩ | ⟨herr, _⟩
      · have hwait := readBody_waits hafter hno hok
        simp only [hok, Option.map_some, Except.map, Option.some.injEq, Except.ok.injEq,
          Prod.mk.injEq] at hread
        rw [← hread.2, hwait] at hleft
        simpa using hleft.length_le
      · simp [herr, Except.map] at hread
    · intro hc value hv hn
      obtain ⟨resp, r', hread, _, _⟩ := hprompt []
      obtain ⟨after, _, hresp⟩ := readResponse_head h _ (Reader.holds_pieces hpieces [])
      rw [hresp] at hread
      simp [readBody, hc, hv, hn, Except.map] at hread
  · intro hok more
    obtain ⟨after, hafter, hresp⟩ := readResponse_head h _ (Reader.holds_pieces hpieces more)
    obtain ⟨data, r', rest, hread, hleft⟩ := readBody_holds h.delimited after hafter hok
    have hresult : readResponse ⟨pieces ++ more, []⟩ = some (.ok (⟨some status, fields, data⟩, r')) := by
      rw [hresp, hread]
      rfl
    refine ⟨⟨some status, fields, data⟩, r', hresult, hleft.suffix, ?_⟩
    rw [request_written hbody hwrite, hresult]
    rfl

-- A response cut up in the middle of its chunks.
def chunkedPieces : List Bytes :=
  [ascii "HTTP/1.1 200 OK\r\nTransfer-Encoding: gzip, chunked\r\n\r\n1\r\na",
    ascii "\r\n0\r\nT: 1\r\n\r\n"]

theorem chunkedPieces_response : ResponseTo "GET" chunkedPieces.flatten 200
    [("transfer-encoding", "gzip, chunked")] (ascii "1\r\na\r\n0\r\nT: 1\r\n\r\n") := by
  have hone : SizeLine (ascii "1") 1 := by
    apply sizeLine_of_all [0x31] [] [] <;> decide
  have hzero : SizeLine (ascii "0") 0 := by
    apply sizeLine_of_all [0x30] [] [] <;> decide
  have hcoding : parseField (ascii "Transfer-Encoding: gzip, chunked") =
      ("transfer-encoding", "gzip, chunked") := by decide +kernel
  have hfields : Fields (ascii "Transfer-Encoding: gzip, chunked\r\n\r\n1\r\na\r\n0\r\nT: 1\r\n\r\n")
      [("transfer-encoding", "gzip, chunked")] (ascii "1\r\na\r\n0\r\nT: 1\r\n\r\n") := by
    rw [← hcoding]
    refine .field _ _ (ascii "\r\n1\r\na\r\n0\r\nT: 1\r\n\r\n") _ _ (by decide +kernel) (by decide) ?_
    exact .blank _ _ (by decide)
  have htrailers : Fields (ascii "T: 1\r\n\r\n") [parseField (ascii "T: 1")] [] :=
    .field _ _ crlf _ _ (by decide) (by decide) (.blank _ _ (by decide))
  have hchunks : WholeChunks (ascii "1\r\na\r\n0\r\nT: 1\r\n\r\n") :=
    .chunk _ (ascii "1") (ascii "a") (ascii "0\r\nT: 1\r\n\r\n") (by decide) (by decide) hone
      (.last _ (ascii "0") _ _ (by decide) hzero htrailers)
  exact ⟨⟨ascii "HTTP/1.1 200 OK", _, by decide +kernel, by decide +kernel, hfields⟩,
    .chunked (by decide) "gzip, chunked" (by decide +kernel) (by decide +kernel) hchunks⟩

theorem chunkedPieces_prompt :
    Prompt (fun _ => none) chunkedPieces "GET" "/" "a.example" [] (.bytes []) := by
  have hread : LengthRead [("transfer-encoding", "gzip, chunked")] := by
    intro hplain
    exact absurd hplain (by decide +kernel)
  exact (prompt_iff chunkedPieces_response chunkedPieces (by decide) rfl (fun _ => none) "/" "a.example" []
    (.bytes []) [] rfl rfl).mpr hread

-- The header section that answers HEAD, with the length a GET would return.
def headAnswer : Bytes := ascii "HTTP/1.1 200 OK\r\nContent-Length: 5\r\n\r\n"

theorem headAnswer_waits :
    ResponseTo "HEAD" headAnswer 200 [("content-length", "5")] [] ∧
      ¬Prompt (fun _ => none) [headAnswer] "HEAD" "/" "a.example" [] (.bytes []) := by
  constructor
  · have hlength : parseField (ascii "Content-Length: 5") = ("content-length", "5") := by decide +kernel
    have hfields : Fields (ascii "Content-Length: 5\r\n\r\n") [("content-length", "5")] [] := by
      rw [← hlength]
      exact .field _ _ crlf _ _ (by decide) (by decide) (.blank _ _ (by decide))
    exact ⟨⟨ascii "HTTP/1.1 200 OK", _, by decide +kernel, by decide +kernel, hfields⟩,
      .bodyless (by decide) rfl⟩
  · intro hprompt
    obtain ⟨resp, r', hread, hleft, _⟩ := hprompt [[]]
    have hwaits : (readResponse ⟨[headAnswer] ++ [[]], []⟩).map (Except.map fun read => read.2.results) =
        some (.ok []) := by decide +kernel
    rw [hread] at hwaits
    simp only [Option.map_some, Except.map, Option.some.injEq, Except.ok.injEq] at hwaits
    rw [hwaits] at hleft
    simpa using hleft.length_le

end NeverFox.Http1
