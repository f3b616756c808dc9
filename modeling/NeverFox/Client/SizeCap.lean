import NeverFox.Client.SendOnce

namespace NeverFox.Client

variable {W ε δ : Type}

-- A response that is returned has at most `cap` octets, raw and decoded.
def Bounded (cap : Nat) (result : Except Exn Response) : Prop :=
  ∀ resp, result = .ok resp → resp.raw.length ≤ cap ∧ resp.content.length ≤ cap

-- What the answer of each backend must be like for the response to be bounded:
-- over HTTP/2 anything will do, over HTTP/1.1 the raw body is not checked, and
-- over h3 neither is the decoded one.
def WithinCap (codecs : Codecs) (cap : Nat) (t : Transmission) : Prop :=
  ∀ raw content, t.answer = .ok raw →
    match t.backend with
    | .h2 => True
    | .http1 => decompress codecs raw.body (contentEncoding raw.headers) cap = .ok content →
        raw.body.length ≤ cap
    | .h3 => decompress codecs raw.body (contentEncoding raw.headers) 0 = .ok content →
        raw.body.length ≤ cap ∧ content.length ≤ cap

-- A call whose response is bounded just if the answers it got were.
def CapExact (codecs : Codecs) (cap : Nat) (r : Run W) (result : Except Exn Response × Run W) : Prop :=
  ∃ news, result.2.sent = r.sent ++ news ∧
    (Bounded cap result.1 ↔ ∀ t ∈ news, WithinCap codecs cap t)

theorem bounded_error (cap : Nat) (exc : Exn) : Bounded cap (.error exc) := nofun

theorem withinCap_error (codecs : Codecs) (cap : Nat) (backend : Backend) (exc : Exn) :
    WithinCap codecs cap ⟨backend, .error exc⟩ := nofun

theorem bounded_make {codecs : Codecs} {cap limit : Nat} {raw : RawResponse} {proto url : String} :
    Bounded cap (Response.make codecs raw proto url limit) ↔
      ∀ content, decompress codecs raw.body (contentEncoding raw.headers) limit = .ok content →
        raw.body.length ≤ cap ∧ content.length ≤ cap := by
  unfold Bounded Response.make
  cases hd : decompress codecs raw.body (contentEncoding raw.headers) limit with
  | error exc => simp [Except.map]
  | ok content =>
      simp only [Except.map, Except.ok.injEq, forall_eq']

-- Under the limit what is decoded stays below it as soon as the raw body does.
theorem bounded_make_limit {codecs : Codecs} {cap : Nat} (hcap : cap ≠ 0) {raw : RawResponse}
    {proto url : String} :
    Bounded cap (Response.make codecs raw proto url cap) ↔
      ∀ content, decompress codecs raw.body (contentEncoding raw.headers) cap = .ok content →
        raw.body.length ≤ cap := by
  rw [bounded_make]
  constructor
  · intro h content hd
    exact (h content hd).1
  · intro h content hd
    have hraw := h content hd
    refine ⟨hraw, ?_⟩
    rcases decompress_length hcap hd with hle | rfl
    · exact hle
    · exact hraw

theorem capExact_tryH3 (s : Session) (net : Net W ε δ) (hop : Hop) (r : Run W) (cap : Nat) :
    ∃ news, (tryH3 s net hop r).2.sent = r.sent ++ news ∧
      ((∃ resp, (tryH3 s net hop r).1 = some resp ∧
          (Bounded cap (.ok resp) ↔ ∀ t ∈ news, WithinCap net.codecs cap t)) ∨
        ((tryH3 s net hop r).1 = none ∧ ∀ t ∈ news, WithinCap net.codecs cap t)) := by
  unfold tryH3
  split
  · split
    · exact ⟨[], by simp, .inr ⟨rfl, by simp⟩⟩
    · rename_i answer w _
      dsimp only
      refine ⟨[⟨.h3, answer⟩], by split <;> rfl, ?_⟩
      cases answer with
      | error exc => exact .inr ⟨rfl, by simpa using withinCap_error _ _ _ _⟩
      | ok raw =>
          have hwithin : WithinCap net.codecs cap ⟨.h3, .ok raw⟩ ↔
              Bounded cap (Response.make net.codecs raw "h3" (h3Url hop) 0) := by
            rw [bounded_make]
            constructor
            · intro h content
              exact h raw content rfl
            · rintro h _ content ⟨⟩
              exact h content
          dsimp only [Except.bind]
          split
          · rename_i resp hmake
            refine .inl ⟨resp, rfl, ?_⟩
            rw [← hmake, List.forall_mem_singleton, hwithin]
          · rename_i exc hmake
            refine .inr ⟨rfl, ?_⟩
            rw [List.forall_mem_singleton, hwithin, hmake]
            exact bounded_error cap exc
  · exact ⟨[], by simp, .inr ⟨rfl, by simp⟩⟩

theorem capExact_attempt (mode : Mode) (s : Session) (net : Net W ε δ) (hop : Hop) (r : Run W)
    {cap : Nat} (hcap : cap ≠ 0) (hs : s.maxResponseBytes = some cap) :
    CapExact net.codecs cap r (attempt mode s net hop r) := by
  have hmax : maxBytes s = cap := by simp [maxBytes, hs]
  unfold attempt
  split
  · rename_i exc w _
    exact ⟨[], by simp, by simp [bounded_error]⟩
  · rename_i tp w _
    refine ⟨_, rfl, ?_⟩
    dsimp only
    cases ha : http1Request tp hop with
    | error exc =>
        refine iff_of_true (bounded_error cap exc) fun t ht => ?_
        split at ht
        · rw [List.mem_singleton.mp ht]
          exact withinCap_error _ _ _ _
        · simp at ht
    | ok raw =>
        have hoctets : (Http1.octets hop.body).isSome := octets_of_request ha
        rw [if_pos hoctets, List.forall_mem_singleton, hmax]
        dsimp only [Except.bind]
        rw [bounded_make_limit hcap]
        constructor
        · rintro h _ content ⟨⟩
          exact h content
        · intro h content
          exact h raw content rfl
  · rename_i lease w _
    refine ⟨_, rfl, ?_⟩
    have hall : ∀ t ∈ (if lease.conn.writes net.hpack (sendArgs s hop) then
        [(⟨.h2, (lease.conn.request net.hpack (sendArgs s hop) hop.timeout lease.wait lease.late).1⟩ :
          Transmission)] else []), WithinCap net.codecs cap t := by
      intro t ht
      split at ht
      · rw [List.mem_singleton.mp ht]
        exact fun _ _ _ => trivial
      · simp at ht
    refine iff_of_true ?_ hall
    dsimp only
    cases ha : (lease.conn.request net.hpack (sendArgs s hop) hop.timeout lease.wait lease.late).1 with
    | error exc => exact bounded_error cap exc
    | ok raw =>
        have hraw := H2.request_capped net.hpack lease.conn (sendArgs s hop) hop.timeout lease.wait
          lease.late raw (by simpa [sendArgs, hmax] using hcap) ha
        dsimp only [Except.bind]
        rw [hmax, bounded_make_limit hcap]
        intro _ _
        simpa [sendArgs, hmax] using hraw

theorem capExact_attempts (mode : Mode) (s : Session) (net : Net W ε δ) (hop : Hop)
    {cap : Nat} (hcap : cap ≠ 0) (hs : s.maxResponseBytes = some cap) (n : Nat) (last : Exn)
    (r : Run W) : CapExact net.codecs cap r (attempts mode s net hop n last r) := by
  induction n generalizing last r with
  | zero => exact ⟨[], by simp [attempts], by simp [attempts, bounded_error]⟩
  | succ n ih =>
      obtain ⟨news, hnews, hiff⟩ := capExact_attempt mode s net hop r hcap hs
      unfold attempts
      split
      · rename_i resp r' heq
        rw [heq] at hnews hiff
        exact ⟨news, hnews, hiff⟩
      · rename_i exc r' heq
        rw [heq] at hnews hiff
        have hwithin := hiff.mp (bounded_error cap exc)
        split
        · obtain ⟨more, hmore, hiff'⟩ := ih exc r'
          refine ⟨news ++ more, by rw [hmore, hnews, List.append_assoc], ?_⟩
          rw [hiff', List.forall_mem_append]
          exact ⟨fun h => ⟨hwithin, h⟩, And.right⟩
        · exact ⟨news, hnews, hiff⟩

-- The size cap holds of a call exactly when every answer it got kept to it:
-- what HTTP/2 delivers always does, what HTTP/1.1 delivers is not capped raw,
-- and what h3 delivers is not capped at all.
theorem size_cap_iff (mode : Mode) (s : Session) (net : Net W ε δ) (hop : Hop) (w : W) (cap : Nat)
    (hcap : cap ≠ 0) (hs : s.maxResponseBytes = some cap) :
    (∀ resp, (sendOnce mode s net hop ⟨w, []⟩).1 = .ok resp →
        resp.raw.length ≤ cap ∧ resp.content.length ≤ cap) ↔
      ∀ t ∈ (sendOnce mode s net hop ⟨w, []⟩).2.sent, WithinCap net.codecs cap t := by
  change Bounded cap _ ↔ _
  obtain ⟨news, hnews, hcases⟩ := capExact_tryH3 s net hop ⟨w, []⟩ cap
  unfold sendOnce
  split
  · rename_i resp r heq
    rw [heq] at hnews hcases
    rcases hcases with ⟨resp', hresp, hiff⟩ | ⟨hnone, _⟩
    · obtain rfl := Option.some.inj hresp
      rw [hiff, hnews]
      rfl
    · cases hnone
  · rename_i r heq
    rw [heq] at hnews hcases
    rcases hcases with ⟨resp, hresp, _⟩ | ⟨_, hwithin⟩
    · cases hresp
    · obtain ⟨more, hmore, hiff⟩ :=
        capExact_attempts mode s net hop hcap hs (attemptCount s hop) .typeError r
      rw [hiff, hmore, hnews, List.nil_append, List.forall_mem_append]
      exact ⟨fun h => ⟨hwithin, h⟩, And.right⟩

def plainText (data : Bytes) : Http1.Exchange :=
  ⟨fun _ => none, ["HTTP/1.1 200 OK\r\n\r\n".toList.map (fun c => UInt8.ofNat c.toNat) ++ data]⟩

-- A network on which every connection negotiates http/1.1.
def overHttp1 (data : Bytes) : Net Unit Nat (List Bytes) where
  hpack := ⟨0, [], fun enc _ => (enc, .ok []), fun dec _ => (dec, .ok [])⟩
  codecs := ⟨fun _ _ _ => .error .zlibError, fun _ => .error .otherError, fun _ _ => .error .otherError⟩
  bundled _ := false
  known _ _ := false
  runH3 _ w := (.unlaunched (.ioError ""), w)
  existingConn _ w := (none, w)
  getConn _ w := (.ok (.http1 (plainText data)), w)
  isdigit _ := false
  uniform low _ w := (low, w)
  sleep _ w := w

def getHop : Hop :=
  ⟨"GET", "a.example", 443, "/", "a.example", [], .bytes [], 15, "https", "https://a.example/", none⟩

def rawLength (result : Except Exn Response) : Option Nat :=
  result.toOption.map fun resp => resp.raw.length

theorem exists_of_rawLength {result : Except Exn Response} {n : Nat} (h : rawLength result = some n) :
    ∃ resp, result = .ok resp ∧ resp.raw.length = n := by
  cases result with
  | error exc => cases h
  | ok resp => exact ⟨resp, rfl, Option.some.inj h⟩

theorem size_cap_small_body :
    ∃ resp, (sendOnce .sync { headers := [], maxResponseBytes := some 4 } (overHttp1 [0x61]) getHop
        ⟨(), []⟩).1 = .ok resp ∧ resp.raw.length ≤ 4 ∧ resp.content.length ≤ 4 := by
  have hlen : rawLength (sendOnce .sync { headers := [], maxResponseBytes := some 4 }
      (overHttp1 [0x61]) getHop ⟨(), []⟩).1 = some 1 := by decide +kernel
  have hsent : (sendOnce .sync { headers := [], maxResponseBytes := some 4 } (overHttp1 [0x61]) getHop
      ⟨(), []⟩).2.sent = [⟨.http1, .ok ⟨some 200, [], [0x61]⟩⟩] := by decide +kernel
  obtain ⟨resp, hresp, _⟩ := exists_of_rawLength hlen
  refine ⟨resp, hresp, ?_⟩
  refine (size_cap_iff .sync { headers := [], maxResponseBytes := some 4 } (overHttp1 [0x61]) getHop
    () 4 (by decide) rfl).mpr ?_ resp hresp
  rw [hsent, List.forall_mem_singleton]
  rintro raw content ⟨⟩ _
  decide

-- Two octets of an uncapped HTTP/1.1 body under a cap of one.
theorem large_body_returned :
    ∃ resp, (sendOnce .sync { headers := [], maxResponseBytes := some 1 } (overHttp1 [0x61, 0x62])
        getHop ⟨(), []⟩).1 = .ok resp ∧ ¬resp.raw.length ≤ 1 := by
  have hlen : rawLength (sendOnce .sync { headers := [], maxResponseBytes := some 1 }
      (overHttp1 [0x61, 0x62]) getHop ⟨(), []⟩).1 = some 2 := by decide +kernel
  obtain ⟨resp, hresp, htwo⟩ := exists_of_rawLength hlen
  exact ⟨resp, hresp, by omega⟩

end NeverFox.Client
