import NeverFox.Client.SizeCap
import NeverFox.H2.Faults
import NeverFox.Http1.Completeness

namespace NeverFox.Client

variable {W ε δ : Type}

-- The passes that the attempts loop comes to, each with the run it starts from.
def passes (mode : Mode) (s : Session) (net : Net W ε δ) (hop : Hop) : Nat → Run W → List (Run W)
  | 0, _ => []
  | n + 1, r =>
      r :: match attempt mode s net hop r with
        | (.ok _, _) => []
        | (.error exc, r) => if retryable exc then passes mode s net hop n r else []

def sendPasses (mode : Mode) (s : Session) (net : Net W ε δ) (hop : Hop) (r : Run W) : List (Run W) :=
  match tryH3 s net hop r with
  | (some _, _) => []
  | (none, r) => passes mode s net hop (attemptCount s hop) r

-- What the connection of a pass comes to, where the pass gets one.
def answerAt (mode : Mode) (s : Session) (net : Net W ε δ) (hop : Hop) (w : W) :
    Option (Except Exn RawResponse) :=
  match (obtain mode net hop w).1 with
  | .error _ => none
  | .ok (.http1 tp) => some (http1Request tp hop)
  | .ok (.h2 lease) =>
      some (lease.conn.request net.hpack (sendArgs s hop) hop.timeout lease.wait lease.late).1

-- The failures of a call are seen: every one that a connection brings about,
-- a timeout among them, is a connection error; an error that can be tried again
-- is raised only with all attempts used; and what is raised is of that class,
-- unless a connect raised it, or the size cap did over a complete response.
structure FailuresSeen (mode : Mode) (s : Session) (net : Net W ε δ) (hop : Hop) (r : Run W) : Prop where
  reported : ∀ p ∈ sendPasses mode s net hop r, ∀ exc,
    answerAt mode s net hop p.world = some (.error exc) → exc.isIOError = true
  used : ∀ exc, (sendOnce mode s net hop r).1 = .error exc → retryable exc = true →
    (sendPasses mode s net hop r).length = attemptCount s hop
  raised : ∀ exc, (sendOnce mode s net hop r).1 = .error exc → exc.isIOError = true ∨
    ∃ p ∈ sendPasses mode s net hop r, (obtain mode net hop p.world).1 = .error exc ∨
      ∃ raw message, answerAt mode s net hop p.world = some (.ok raw) ∧ exc = .httpError message

-- A pass whose request cannot be written, or whose reply holds what one of the
-- parsers rejects: over HTTP/1.1 a number or a status line, over HTTP/2 a frame
-- read while the request waits.
def Derails (mode : Mode) (s : Session) (net : Net W ε δ) (hop : Hop) (w : W) : Prop :=
  match (obtain mode net hop w).1 with
  | .error _ => False
  | .ok (.http1 tp) =>
      match Http1.octets hop.body with
      | none => True
      | some data =>
          match tp.write (Http1.requestBytes hop.method hop.path hop.authority hop.headers data) with
          | some exc => exc.isIOError = false
          | none => Http1.Rejected ⟨tp.results, []⟩
  | .ok (.h2 lease) =>
      H2.unsendable net.hpack lease.conn (sendArgs s hop) = true ∨
        (H2.written net.hpack lease.conn (sendArgs s hop) = true ∧
          H2.spoilt net.hpack lease.conn.nextId (lease.conn.send net.hpack (sendArgs s hop)).1
            lease.wait = true)

-- No parser of HTTP/1.1 raises a connection error.
theorem readResponse_error {r : Http1.Reader} {exc : Exn}
    (h : Http1.readResponse r = some (.error exc)) : exc.isIOError = false := by
  unfold Http1.readResponse at h
  dsimp only at h
  split at h
  · rename_i exc' hs
    obtain rfl : exc' = exc := by simpa using h
    unfold Http1.statusCode at hs
    split at hs
    · cases hs; rfl
    · split at hs <;> cases hs
      rfl
  · split at h
    · cases h
    · rename_i headers r' _
      rcases Http1.readBody_cases headers r' with ⟨⟨result, hok⟩, _⟩ | ⟨herr, _⟩
      · simp [hok, Except.map] at h
      · obtain rfl : Exn.valueError = exc := by simpa [herr, Except.map] using h
        rfl

theorem http1Request_faulty (tp : Http1.Exchange) (hop : Hop) :
    (∃ exc, http1Request tp hop = .error exc ∧ exc.isIOError = false) ↔
      match Http1.octets hop.body with
      | none => True
      | some data =>
          match tp.write (Http1.requestBytes hop.method hop.path hop.authority hop.headers data) with
          | some exc => exc.isIOError = false
          | none => Http1.Rejected ⟨tp.results, []⟩ := by
  unfold http1Request Http1.request
  cases Http1.octets hop.body with
  | none => simp [Exn.isIOError]
  | some data =>
      dsimp only
      cases tp.write (Http1.requestBytes hop.method hop.path hop.authority hop.headers data) with
      | some exc => simp
      | none =>
          rcases Http1.readResponse_cases ⟨tp.results, []⟩ with
            ⟨⟨resp, r', hok⟩, hno⟩ | ⟨⟨exc, herr⟩, hrej⟩
          · simp [hok, Except.map, hno]
          · simp [herr, Except.map, hrej, readResponse_error herr]

-- A pass fails with what is no connection error exactly if it derails.
theorem answerAt_faulty (mode : Mode) (s : Session) (net : Net W ε δ) (hop : Hop) (w : W) :
    (∃ exc, answerAt mode s net hop w = some (.error exc) ∧ exc.isIOError = false) ↔
      Derails mode s net hop w := by
  unfold answerAt Derails
  rcases (obtain mode net hop w).1 with exc | tp | lease
  · simp
  · simpa using http1Request_faulty tp hop
  · simpa using lease.conn.request_faulty net.hpack (sendArgs s hop) hop.timeout lease.wait lease.late

-- A response that cannot be made of an answer exceeds the size cap.
theorem make_error {codecs : Codecs} {answer : Except Exn RawResponse} {proto url : String} {limit : Nat}
    {exc : Exn} (h : (answer.bind fun raw => Response.make codecs raw proto url limit) = .error exc) :
    answer = .error exc ∨ ∃ raw message, answer = .ok raw ∧ exc = .httpError message := by
  cases answer with
  | error exc' =>
      obtain rfl := Except.error.inj h
      exact .inl rfl
  | ok raw =>
      simp only [Except.bind, Response.make] at h
      cases hd : decompress codecs raw.body (contentEncoding raw.headers) limit with
      | ok content => simp [hd, Except.map] at h
      | error exc' =>
          obtain rfl : exc' = exc := by simpa [hd, Except.map] using h
          obtain ⟨message, rfl⟩ := decompress_error hd
          exact .inr ⟨raw, message, rfl, rfl⟩

-- The errors of a pass, by where they come from.
theorem attempt_error {mode : Mode} {s : Session} {net : Net W ε δ} {hop : Hop} {r : Run W} {exc : Exn}
    (h : (attempt mode s net hop r).1 = .error exc) :
    (obtain mode net hop r.world).1 = .error exc ∨
      answerAt mode s net hop r.world = some (.error exc) ∨
      ∃ raw message, answerAt mode s net hop r.world = some (.ok raw) ∧ exc = .httpError message := by
  unfold attempt at h
  unfold answerAt
  generalize obtain mode net hop r.world = obtained at h ⊢
  rcases obtained with ⟨exc' | tp | lease, w⟩
  · obtain rfl := Except.error.inj h
    exact .inl rfl
  · rcases make_error h with he | ⟨raw, message, he, hexc⟩
    · exact .inr (.inl (congrArg some he))
    · exact .inr (.inr ⟨raw, message, congrArg some he, hexc⟩)
  · rcases make_error h with he | ⟨raw, message, he, hexc⟩
    · exact .inr (.inl (congrArg some he))
    · exact .inr (.inr ⟨raw, message, congrArg some he, hexc⟩)

-- The loop ends with its last pass. Where that could be tried again, every
-- attempt has been used.
theorem attempts_last (mode : Mode) (s : Session) (net : Net W ε δ) (hop : Hop) (n : Nat) (last : Exn)
    (r : Run W) :
    ∃ p ∈ passes mode s net hop (n + 1) r,
      (attempts mode s net hop (n + 1) last r).1 = (attempt mode s net hop p).1 ∧
      ∀ exc, (attempt mode s net hop p).1 = .error exc → retryable exc = true →
        (passes mode s net hop (n + 1) r).length = n + 1 := by
  induction n generalizing last r with
  | zero =>
      refine ⟨r, by simp [passes], ?_, fun exc hexc hretry => ?_⟩
      · unfold attempts
        rcases attempt mode s net hop r with ⟨exc | resp, r'⟩
        · simp [attempts]
        · rfl
      · rcases hat : attempt mode s net hop r with ⟨exc' | resp, r'⟩ <;> rw [hat] at hexc
        · simp [passes, hat]
        · cases hexc
  | succ n ih =>
      unfold passes attempts
      rcases hat : attempt mode s net hop r with ⟨exc | resp, r'⟩
      · by_cases hretry : retryable exc = true
        · obtain ⟨p, hp, hend, hused⟩ := ih exc r'
          simp only [hretry, ↓reduceIte, List.length_cons]
          refine ⟨p, List.mem_cons_of_mem _ hp, hend, fun exc' hexc' hretry' => ?_⟩
          rw [hused exc' hexc' hretry']
        · refine ⟨r, List.mem_cons_self, ?_, fun exc' hexc' hretry' => ?_⟩
          · simp [hretry, hat]
          · rw [hat] at hexc'
            obtain rfl := Except.error.inj hexc'
            exact absurd hretry' hretry
      · refine ⟨r, List.mem_cons_self, by simp [hat], fun exc' hexc' => ?_⟩
        rw [hat] at hexc'
        cases hexc'

-- What a call raises its last pass raised.
theorem sendOnce_last {mode : Mode} {s : Session} {net : Net W ε δ} {hop : Hop} {r : Run W} {exc : Exn}
    (hexc : (sendOnce mode s net hop r).1 = .error exc) :
    ∃ p ∈ sendPasses mode s net hop r, (attempt mode s net hop p).1 = .error exc ∧
      (retryable exc = true → (sendPasses mode s net hop r).length = attemptCount s hop) := by
  unfold sendOnce at hexc
  unfold sendPasses
  generalize tryH3 s net hop r = tried at hexc ⊢
  rcases tried with ⟨_ | resp, r'⟩
  · have hpos : attemptCount s hop ≠ 0 := by
      unfold attemptCount
      omega
    obtain ⟨n, hn⟩ := Nat.exists_eq_succ_of_ne_zero hpos
    obtain ⟨p, hp, hend, hused⟩ := attempts_last mode s net hop n .typeError r'
    dsimp only at hexc ⊢
    rw [hn] at hexc ⊢
    rw [hexc] at hend
    exact ⟨p, hp, hend.symm, hused exc hend.symm⟩
  · cases hexc

-- Whatever failures occur, retries see them exactly when no pass derails.
theorem failures_seen_iff (mode : Mode) (s : Session) (net : Net W ε δ) (hop : Hop) (r : Run W) :
    FailuresSeen mode s net hop r ↔
      ∀ p ∈ sendPasses mode s net hop r, ¬Derails mode s net hop p.world := by
  constructor
  · intro h p hp hderails
    obtain ⟨exc, hexc, hio⟩ := (answerAt_faulty mode s net hop p.world).mpr hderails
    have hseen := h.reported p hp exc hexc
    rw [hio] at hseen
    cases hseen
  · intro h
    have hreported : ∀ p ∈ sendPasses mode s net hop r, ∀ exc,
        answerAt mode s net hop p.world = some (.error exc) → exc.isIOError = true := by
      intro p hp exc hexc
      by_contra hio
      exact h p hp ((answerAt_faulty mode s net hop p.world).mp ⟨exc, hexc, by simpa using hio⟩)
    refine ⟨hreported, fun exc hexc hretry => ?_, fun exc hexc => ?_⟩
    · obtain ⟨_, _, _, hused⟩ := sendOnce_last hexc
      exact hused hretry
    · obtain ⟨p, hp, hend, _⟩ := sendOnce_last hexc
      rcases attempt_error hend with ho | hanswer | hcapped
      · exact .inr ⟨p, hp, .inl ho⟩
      · exact .inl (hreported p hp exc hanswer)
      · exact .inr ⟨p, hp, .inr hcapped⟩

-- A server that closes the connection without a reply.
def closesAtOnce : Net Unit Nat (List Bytes) :=
  { overHttp1 [] with getConn := fun _ w => (.ok (.http1 ⟨fun _ => none, []⟩), w) }

-- An empty status line is out of reach of the retries: one of three attempts
-- is made, and IndexError reaches the caller.
theorem empty_reply_not_retried :
    getHop.method ∈ IDEMPOTENT ∧ attemptCount { headers := [] } getHop = 3 ∧
      (sendPasses .sync { headers := [] } closesAtOnce getHop ⟨(), []⟩).length = 1 ∧
      ¬FailuresSeen .sync { headers := [] } closesAtOnce getHop ⟨(), []⟩ := by
  have hanswer : answerAt .sync { headers := [] } closesAtOnce getHop () = some (.error .indexError) := by
    decide +kernel
  have htry : tryH3 { headers := [] } closesAtOnce getHop ⟨(), []⟩ = (none, ⟨(), []⟩) := rfl
  have hcount : attemptCount { headers := [] } getHop = 3 := by decide
  refine ⟨by decide, hcount, by decide +kernel, fun h => ?_⟩
  have hseen := h.reported ⟨(), []⟩ (by simp [sendPasses, htry, hcount, passes]) _ hanswer
  cases hseen

end NeverFox.Client
