import NeverFox.H2.Responses
import NeverFox.Http1.Completeness

namespace NeverFox.Client

variable {ε δ : Type}

open H2 (Piece fieldsOf payloadsOf statusOf plainFields)

-- The status of a block that ends the interim responses.
def finalStatus (fields : List Header) : Option Int := (statusOf fields).filter (200 ≤ ·)

-- The final response is the first block with such a status, and the data
-- behind it. Trailers are no part of it.
def finalOf : List Piece → Option RawResponse
  | [] => none
  | .data _ :: rest => finalOf rest
  | .block fields :: rest =>
      match finalStatus fields with
      | some status => some ⟨some status, plainFields fields, (payloadsOf rest).flatten⟩
      | none => finalOf rest

-- What comes before the final response.
def Interim (pieces : List Piece) : Prop :=
  ∀ fields, .block fields ∈ pieces → finalStatus fields = none

-- A final block is sent, no other block has a regular field, no data comes
-- before it, and no block behind it has another status.
def Clean (pieces : List Piece) : Prop :=
  ∃ before fields after status, pieces = before ++ .block fields :: after ∧ Interim before ∧
    finalStatus fields = some status ∧
    plainFields (fieldsOf before) = [] ∧ (payloadsOf before).flatten = [] ∧
    plainFields (fieldsOf after) = [] ∧ statusOf (fields ++ fieldsOf after) = some status

-- On HTTP/1.1 a status line and its header lines are one block, and the final
-- response is what the reader makes of the rest.
inductive Final : Http1.Reader → RawResponse → Prop
  | final (r r' : Http1.Reader) (resp : RawResponse) (status : Int)
      (hread : Http1.readResponse r = some (.ok (resp, r'))) (hs : resp.status = some status)
      (hfinal : 200 ≤ status) : Final r resp
  | interim (r r' : Http1.Reader) (resp : RawResponse) (status : Int) (fields : List Header)
      (hs : Http1.statusCode r.readline.1 = .ok status) (hinterim : status < 200)
      (hlines : Http1.HeaderLines r.readline.2 fields r') (hrest : Final r' resp) : Final r resp

theorem finalStatus_eq_some {fields : List Header} {status : Int} :
    finalStatus fields = some status ↔ statusOf fields = some status ∧ 200 ≤ status := by
  simp [finalStatus, Option.filter_eq_some_iff]

-- A status comes from the last field of that name.
theorem exists_status {fields : List Header} {status : Int} (h : statusOf fields = some status) :
    ∃ field ∈ fields, field.1 = ":status" := by
  obtain ⟨field, hlast, _⟩ := Option.bind_eq_some_iff.mp h
  obtain ⟨hm, hn⟩ := List.mem_filter.mp (List.mem_of_getLast? hlast)
  exact ⟨field, hm, by simpa using hn⟩

theorem statusOf_append {before fields : List Header} (h : ∃ field ∈ fields, field.1 = ":status") :
    statusOf (before ++ fields) = statusOf fields := by
  obtain ⟨field, hm, hn⟩ := h
  have hne : fields.filter (fun field => field.1 = ":status") ≠ [] :=
    List.ne_nil_of_mem (List.mem_filter.mpr ⟨hm, by simpa using hn⟩)
  unfold statusOf
  rw [List.filter_append, List.getLast?_append_of_ne_nil _ hne]

theorem plainFields_append (fields more : List Header) :
    plainFields (fields ++ more) = plainFields fields ++ plainFields more := List.filter_append ..

theorem fieldsOf_split (before : List Piece) (fields : List Header) (after : List Piece) :
    fieldsOf (before ++ .block fields :: after) = fieldsOf before ++ (fields ++ fieldsOf after) := by
  simp [fieldsOf]

theorem payloadsOf_split (before : List Piece) (fields : List Header) (after : List Piece) :
    payloadsOf (before ++ .block fields :: after) = payloadsOf before ++ payloadsOf after := by
  simp [payloadsOf]

theorem finalOf_split {before : List Piece} (hinterim : Interim before) {fields : List Header}
    {status : Int} (hs : finalStatus fields = some status) (after : List Piece) :
    finalOf (before ++ .block fields :: after) =
      some ⟨some status, plainFields fields, (payloadsOf after).flatten⟩ := by
  induction before with
  | nil => simp [finalOf, hs]
  | cons piece before ih =>
      have hrest := ih fun other ho => hinterim other (List.mem_cons_of_mem _ ho)
      cases piece with
      | data payload => exact hrest
      | block other =>
          have hno := hinterim other List.mem_cons_self
          simpa [finalOf, hno] using hrest

theorem finalOf_cases (pieces : List Piece) :
    (finalOf pieces = none ∧ Interim pieces) ∨
      ∃ before fields after status, pieces = before ++ .block fields :: after ∧ Interim before ∧
        finalStatus fields = some status := by
  induction pieces with
  | nil => exact .inl ⟨rfl, by simp [Interim]⟩
  | cons piece rest ih =>
      cases piece with
      | data payload =>
          rcases ih with ⟨hnone, hi⟩ | ⟨before, fields, after, status, rfl, hi, hs⟩
          · exact .inl ⟨hnone, by simpa [Interim] using hi⟩
          · exact .inr ⟨.data payload :: before, fields, after, status, rfl, by simpa [Interim] using hi, hs⟩
      | block head =>
          cases hh : finalStatus head with
          | some status => exact .inr ⟨[], head, rest, status, rfl, by simp [Interim], hh⟩
          | none =>
              rcases ih with ⟨hnone, hi⟩ | ⟨before, fields, after, status, rfl, hi, hs⟩
              · exact .inl ⟨by simp [finalOf, hh, hnone], by simpa [Interim, hh] using hi⟩
              · exact .inr ⟨.block head :: before, fields, after, status, rfl,
                  by simpa [Interim, hh] using hi, hs⟩

-- All the fields and data together are the final response just if nothing else shows.
theorem finalOf_eq_iff (pieces : List Piece) :
    finalOf pieces = some ⟨statusOf (fieldsOf pieces), plainFields (fieldsOf pieces),
      (payloadsOf pieces).flatten⟩ ↔ Clean pieces := by
  have hlast : ∀ before fields after status, finalStatus fields = some status →
      statusOf (fieldsOf before ++ (fields ++ fieldsOf after)) = statusOf (fields ++ fieldsOf after) := by
    intro before fields after status hs
    obtain ⟨field, hm, hn⟩ := exists_status (finalStatus_eq_some.mp hs).1
    exact statusOf_append ⟨field, List.mem_append_left _ hm, hn⟩
  constructor
  · intro h
    rcases finalOf_cases pieces with ⟨hnone, _⟩ | ⟨before, fields, after, status, rfl, hi, hs⟩
    · rw [hnone] at h
      cases h
    · rw [finalOf_split hi hs, fieldsOf_split, payloadsOf_split, hlast _ _ _ _ hs] at h
      simp only [plainFields_append, List.flatten_append, Option.some.injEq, RawResponse.mk.injEq] at h
      obtain ⟨hstatus, hfields, hbody⟩ := h
      have hlengths := congrArg List.length hfields
      have hoctets := congrArg List.length hbody
      simp only [List.length_append] at hlengths hoctets
      refine ⟨before, fields, after, status, rfl, hi, hs, ?_, ?_, ?_, hstatus.symm⟩
      · exact List.eq_nil_of_length_eq_zero (by omega)
      · exact List.eq_nil_of_length_eq_zero (by omega)
      · exact List.eq_nil_of_length_eq_zero (by omega)
  · rintro ⟨before, fields, after, status, rfl, hi, hs, hbefore, hearly, hafter, hstatus⟩
    rw [finalOf_split hi hs, fieldsOf_split, payloadsOf_split, hlast _ _ _ _ hs, hstatus]
    simp only [plainFields_append, List.flatten_append, hbefore, hafter, hearly, List.nil_append,
      List.append_nil]

-- Over HTTP/1.1 what is returned has the status of the first line.
theorem readResponse_status {r r' : Http1.Reader} {resp : RawResponse}
    (h : Http1.readResponse r = some (.ok (resp, r'))) :
    ∃ status, Http1.statusCode r.readline.1 = .ok status ∧ resp.status = some status := by
  unfold Http1.readResponse at h
  dsimp only at h
  split at h
  · cases h
  · rename_i status hs
    split at h
    · cases h
    · obtain ⟨result, _, he⟩ := Option.map_eq_some_iff.mp h
      cases result with
      | error exc => cases he
      | ok body =>
          obtain ⟨rfl, _⟩ := Prod.mk.inj (Except.ok.inj he)
          exact ⟨status, hs, rfl⟩

theorem Final.status {r : Http1.Reader} {resp : RawResponse} (h : Final r resp) :
    ∃ status, resp.status = some status ∧ 200 ≤ status := by
  induction h with
  | final _ _ _ status _ hs hfinal => exact ⟨status, hs, hfinal⟩
  | interim _ _ _ _ _ _ _ _ _ ih => exact ih

-- What is returned is the final response just if that comes first, unless
-- nothing is returned.
theorem http1_final_iff (tp : Http1.Exchange) (method path authority : String) (headers : List Header)
    (body : Body) :
    (∀ resp, Http1.request tp method path authority headers body = some (.ok resp) →
        Final ⟨tp.results, []⟩ resp) ↔
      (∃ status, Http1.statusCode (Http1.Reader.readline ⟨tp.results, []⟩).1 = .ok status ∧ 200 ≤ status) ∨
        Http1.Unwritten tp method path authority headers body ∨ Http1.Rejected ⟨tp.results, []⟩ := by
  unfold Http1.request Http1.Unwritten
  cases ho : Http1.octets body with
  | none => simp
  | some data =>
      dsimp only
      cases hw : tp.write (Http1.requestBytes method path authority headers data) with
      | some exc => simp [hw]
      | none =>
          rcases Http1.readResponse_cases ⟨tp.results, []⟩ with ⟨⟨resp, r', hok⟩, hno⟩ | ⟨⟨exc, herr⟩, hrej⟩
          · obtain ⟨status, hfirst, hs⟩ := readResponse_status hok
            rw [hok]
            constructor
            · intro h
              obtain ⟨status', hs', hfinal⟩ := (h resp rfl).status
              obtain rfl : status = status' := by simpa [hs] using hs'
              exact .inl ⟨status, hfirst, hfinal⟩
            · rintro (⟨status', hfirst', hfinal⟩ | hu | hrej)
              · obtain rfl : status = status' := by simpa [hfirst] using hfirst'
                rintro resp' he
                obtain rfl : resp = resp' := by simpa [Except.map] using he
                exact .final _ r' resp status hok hs hfinal
              · exact absurd hw (hu data rfl)
              · exact absurd hrej hno
          · rw [herr]
            simp [Except.map, hrej]

-- What a stream that is done returns is the final response on it just if that
-- is clean, unless it fails for too much data.
theorem h2_final_iff {sid cap : Nat} {st : H2.Stream} {r : H2.Reply} (h : H2.Held sid cap st r) :
    (∀ resp, st.done = true → H2.Conn.outcome st = .ok resp → finalOf r.pieces = some resp) ↔
      (r.ended = true → ¬r.exceeds cap → Clean r.pieces) := by
  rcases h with ⟨hwithin, rfl⟩ | ⟨hover, herror, _⟩
  · rw [← finalOf_eq_iff]
    simp [H2.Conn.outcome, H2.Reply.stream, hwithin, H2.Reply.fields, H2.Reply.chunks]
  · simp [H2.Conn.outcome, herror, hover]

-- Over both protocols: what a call returns is the final response, whatever
-- interim responses and trailers there are, exactly when they do not show. A
-- stream that is not ended when its reader ends returns nothing.
theorem final_response_iff (hp : H2.Hpack ε δ) (sids : List Nat) (cap : Nat → Nat)
    (frames : List H2.Frame) (c : H2.Conn ε δ) (s : H2.Course δ) (hawaiting : H2.Awaiting c sids cap)
    (hwire : ∀ f ∈ frames, f.onWire)
    (hcourse : Transition.run (H2.Course.advance hp sids) { dec := c.dec } frames = some s)
    (sid : Nat) (hs : sid ∈ sids) (tp : Http1.Exchange) (method path authority : String)
    (headers : List Header) (body : Body) :
    (∃ c', Transition.run (H2.step hp) c (frames.map .frame) = some c' ∧
      ((∀ resp, (c'.obj sid).done = true → H2.Conn.outcome (c'.obj sid) = .ok resp →
          finalOf (s.reply sid).pieces = some resp) ↔
        ((s.reply sid).ended = true → ¬(s.reply sid).exceeds (cap sid) → Clean (s.reply sid).pieces)) ∧
      ∀ e c'', H2.step hp c' e = some c'' → c''.reading = false → (s.reply sid).ended = false →
        ∀ resp, H2.Conn.outcome (c''.obj sid) ≠ .ok resp) ∧
    ((∀ resp, Http1.request tp method path authority headers body = some (.ok resp) →
        Final ⟨tp.results, []⟩ resp) ↔
      (∃ status, Http1.statusCode (Http1.Reader.readline ⟨tp.results, []⟩).1 = .ok status ∧ 200 ≤ status) ∨
        Http1.Unwritten tp method path authority headers body ∨ Http1.Rejected ⟨tp.results, []⟩) := by
  obtain ⟨c', hrun, htracks⟩ := H2.Tracks.run hawaiting hwire hcourse
  refine ⟨⟨c', hrun, h2_final_iff (htracks.stream sid hs), ?_⟩,
    http1_final_iff tp method path authority headers body⟩
  intro e c'' hstep hend hopen resp ho
  obtain ⟨exc, he⟩ := Option.isSome_iff_exists.mp (htracks.cut hs hopen hstep hend)
  simp [H2.Conn.outcome, he] at ho

-- An interim response without fields, the final response with its data, and a
-- trailer block without fields.
def plainHints : List H2.Frame :=
  [⟨.headers, H2.F_END_HEADERS, 1, [0x08, 0x03, 0x31, 0x30, 0x33]⟩,
    ⟨.headers, H2.F_END_HEADERS, 1, [0x88, 0x90]⟩, ⟨.data, 0, 1, [104, 105]⟩,
    ⟨.headers, H2.F_END_HEADERS ||| H2.F_END_STREAM, 1, []⟩]

def okExchange : Http1.Exchange :=
  ⟨fun _ => none, [Http1.ascii "HTTP/1.1 200 OK\r\nContent-Length: 2\r\n\r\nhi"]⟩

theorem final_response_plain :
    ∃ c, Transition.run (H2.step H2.staticCodec) H2.twoSent (plainHints.map .frame) = some c ∧
      (∀ resp, (c.obj 1).done = true → H2.Conn.outcome (c.obj 1) = .ok resp →
        resp = ⟨some 200, [("accept-encoding", "gzip, deflate")], [104, 105]⟩) ∧
      ∀ resp, Http1.request okExchange "GET" "/" "a.example" [] (.bytes []) = some (.ok resp) →
        Final ⟨okExchange.results, []⟩ resp := by
  obtain ⟨s, hcourse, hreply⟩ : ∃ s, Transition.run (H2.Course.advance H2.staticCodec [1, 3])
      { dec := H2.twoSent.dec } plainHints = some s ∧
      s.reply 1 = ⟨[.block [(":status", "103")],
        .block [(":status", "200"), ("accept-encoding", "gzip, deflate")], .data [104, 105],
        .block []], true⟩ := ⟨_, rfl, by decide⟩
  obtain ⟨⟨c, hrun, h2, _⟩, h1⟩ := final_response_iff H2.staticCodec [1, 3] (fun _ => 0) plainHints
    H2.twoSent s H2.awaiting_twoSent (by decide) hcourse 1 (by decide) okExchange "GET" "/" "a.example" []
    (.bytes [])
  refine ⟨c, hrun, fun resp hd ho => ?_, h1.mpr (.inl ⟨200, by decide +kernel, by decide⟩)⟩
  rw [hreply] at h2
  have hclean := h2.mpr (fun _ _ => ⟨[.block [(":status", "103")]],
    [(":status", "200"), ("accept-encoding", "gzip, deflate")], [.data [104, 105], .block []], 200,
    rfl, by simp [Interim]; decide, by decide, by decide, by decide, by decide, by decide⟩) resp hd ho
  have hfinal : finalOf [.block [(":status", "103")],
      .block [(":status", "200"), ("accept-encoding", "gzip, deflate")], .data [104, 105], .block []] =
      some ⟨some 200, [("accept-encoding", "gzip, deflate")], [104, 105]⟩ := by decide
  exact Option.some.inj (hclean.symm.trans hfinal)

-- A 103 with a field, and over HTTP/1.1 a 100.
def hints : List H2.Frame :=
  [⟨.headers, H2.F_END_HEADERS, 1, [0x08, 0x03, 0x31, 0x30, 0x33, 0x90]⟩,
    ⟨.headers, H2.F_END_HEADERS ||| H2.F_END_STREAM, 1, [0x88]⟩]

def continueExchange : Http1.Exchange :=
  ⟨fun _ => none, [Http1.ascii "HTTP/1.1 100 Continue\r\n\r\nHTTP/1.1 204 No Content\r\n\r\n"]⟩

theorem continueExchange_returns :
    Http1.request continueExchange "GET" "/" "a.example" [] (.bytes []) =
      some (.ok ⟨some 100, [], Http1.ascii "HTTP/1.1 204 No Content\r\n\r\n"⟩) := by
  decide +kernel

theorem interim_pollutes :
    (∃ c s resp, Transition.run (H2.step H2.staticCodec) H2.twoSent (hints.map .frame) = some c ∧
      Transition.run (H2.Course.advance H2.staticCodec [1, 3]) { dec := H2.twoSent.dec } hints = some s ∧
      (c.obj 1).done = true ∧ H2.Conn.outcome (c.obj 1) = .ok resp ∧
      finalOf (s.reply 1).pieces ≠ some resp) ∧
    ∃ resp, Http1.request continueExchange "GET" "/" "a.example" [] (.bytes []) = some (.ok resp) ∧
      ¬Final ⟨continueExchange.results, []⟩ resp := by
  refine ⟨⟨_, _, ⟨some 200, [("accept-encoding", "gzip, deflate")], []⟩, rfl, rfl, by decide, by decide,
    by decide⟩, _, continueExchange_returns, fun h => ?_⟩
  obtain ⟨status, hs, hfinal⟩ := h.status
  obtain rfl : 100 = status := by simpa using hs
  exact absurd hfinal (by decide)

end NeverFox.Client
