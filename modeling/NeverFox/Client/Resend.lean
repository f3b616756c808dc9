import NeverFox.Client.SendOnce
import Mathlib.Data.List.Chain

namespace NeverFox.Client

variable {W ε δ : Type}

-- The transmission ended with a received 429 or 503.
def Transmission.refused (t : Transmission) : Bool :=
  match t.answer with
  | .ok raw => busy raw.status
  | .error _ => false

-- Every further transmission follows one that the server refused.
def NoDuplicates (sent : List Transmission) : Prop := sent.IsChain fun t _ => t.refused

-- The setting and the target leave the h3 attempt open.
def h3Possible (s : Session) (hop : Hop) : Bool :=
  hop.scheme = "https" && hop.proxy = none && s.h3 ≠ .off && hop.port = 443

-- The connection that is handed out takes the write of the request.
def goesOut (mode : Mode) (s : Session) (net : Net W ε δ) (hop : Hop) (w : W) : Bool :=
  match (obtain mode net hop w).1 with
  | .error _ => false
  | .ok (.http1 _) => (Http1.octets hop.body).isSome
  | .ok (.h2 lease) => lease.conn.writes net.hpack (sendArgs s hop)

-- A pass in which the h3 process is started, fails without a refusal that was
-- received, and a connection takes the request again.
def resends (mode : Mode) (s : Session) (net : Net W ε δ) (hop : Hop) (w : W) : Bool :=
  if hop.scheme = "https" ∧ hop.proxy = none ∧ shouldTryH3 s net hop w then
    match h3Request net hop w with
    | (.unlaunched _, _) => false
    | (.launched answer, w) =>
        match answer.bind fun raw => Response.make net.codecs raw "h3" (h3Url hop) 0 with
        | .ok _ => false
        | .error _ => !Transmission.refused ⟨.h3, answer⟩ && goesOut mode s net hop w
  else false

-- No pass that the backoff loop comes to is one of those.
def NoneResends (mode : Mode) (s : Session) (net : Net W ε δ) (hop : Hop) :
    (left attempt : Nat) → Run W → Prop
  | 0, _, r => resends mode s net hop r.world = false
  | left + 1, attempt, r => resends mode s net hop r.world = false ∧
      match sendOnce mode s net hop r with
      | (.error _, _) => True
      | (.ok resp, r) => busy resp.statusCode →
          match pause net resp.headers attempt r.world with
          | (some _, _) => True
          | (none, w) => NoneResends mode s net hop left (attempt + 1) { r with world := w }

-- A request whose answer was read has been written.
theorem writes_of_request {hp : H2.Hpack ε δ} {c : H2.Conn ε δ} {args : H2.SendArgs}
    {timeout : Nat} {wait late : List H2.Event} {raw : RawResponse}
    (hr : (c.request hp args timeout wait late).1 = .ok raw) : c.writes hp args = true := by
  have hok : ∃ sid, (c.send hp args).2 = .ok sid := by
    unfold H2.Conn.request at hr
    split at hr
    · cases hr
    · rename_i sid hs
      exact ⟨sid, by rw [hs]⟩
  obtain ⟨sid, hsid⟩ := hok
  rw [c.send_snd] at hsid
  unfold H2.Conn.writes
  rw [c.send_fst]
  rcases c.trySend_cases hp args with ⟨_, exc, he⟩ | ⟨fields, _, _, he⟩ <;> rw [he] at hsid ⊢
  · cases hsid
  · rcases (c.allocate.register c.nextId args.maxBytes).emit_cases hp c.nextId fields args.body with
      ⟨exc, _, hm⟩ | ⟨block, data, _, _, _, hm⟩ <;> rw [hm] at hsid ⊢
    · cases hsid
    · simp [H2.Conn.write, H2.Conn.release, H2.Conn.setEncoder, H2.Conn.register, H2.Conn.allocate]

theorem status_of_make {codecs : Codecs} {answer : Except Exn RawResponse} {proto url : String}
    {limit : Nat} {resp : Response}
    (hr : (answer.bind fun raw => Response.make codecs raw proto url limit) = .ok resp) :
    ∃ raw, answer = .ok raw ∧ resp.statusCode = raw.status := by
  cases answer with
  | error exc => cases hr
  | ok raw =>
      refine ⟨raw, rfl, ?_⟩
      unfold Except.bind Response.make Except.map at hr
      dsimp only at hr
      split at hr
      · cases hr
      · rw [← Except.ok.inj hr]

-- What a call adds to what was sent. Its response is the last answer among it.
structure Adds (r : Run W) (result : Except Exn Response × Run W) (news : List Transmission) :
    Prop where
  sent : result.2.sent = r.sent ++ news
  answer : ∀ resp, result.1 = .ok resp →
    ∃ t ∈ news.getLast?, ∃ raw, t.answer = .ok raw ∧ resp.statusCode = raw.status

theorem adds_attempt (mode : Mode) (s : Session) (net : Net W ε δ) (hop : Hop) (r : Run W) :
    ∃ news, Adds r (attempt mode s net hop r) news ∧ news.length ≤ 1 ∧
      (news = [] ↔ goesOut mode s net hop r.world = false) := by
  unfold attempt goesOut
  rcases obtain mode net hop r.world with ⟨exc | tp | lease, w⟩
  · exact ⟨[], ⟨by simp, by simp⟩, by simp, by simp⟩
  · refine ⟨_, ⟨rfl, ?_⟩, by split <;> simp, by simp⟩
    intro resp hresp
    obtain ⟨raw, hraw, hstatus⟩ := status_of_make hresp
    exact ⟨⟨.http1, http1Request tp hop⟩, by simp [octets_of_request hraw], raw, hraw, hstatus⟩
  · refine ⟨_, ⟨rfl, ?_⟩, by split <;> simp, by simp⟩
    intro resp hresp
    obtain ⟨raw, hraw, hstatus⟩ := status_of_make hresp
    exact ⟨⟨.h2, _⟩, by simp [writes_of_request hraw], raw, hraw, hstatus⟩

-- One attempt is all that a method outside IDEMPOTENT gets.
theorem attempts_one (mode : Mode) (s : Session) (net : Net W ε δ) (hop : Hop) (last : Exn)
    (r : Run W) : attempts mode s net hop 1 last r = attempt mode s net hop r := by
  unfold attempts
  split
  · rename_i heq
    exact heq.symm
  · rename_i exc r' heq
    rw [heq]
    simp [attempts]

theorem attemptCount_eq_one (s : Session) (hop : Hop) (hm : hop.method ∉ IDEMPOTENT) :
    attemptCount s hop = 1 := by
  simp [attemptCount, hm]

-- The h3 attempt answers, is lost in the process, or sends nothing.
theorem tryH3_cases (mode : Mode) (s : Session) (net : Net W ε δ) (hop : Hop) (r : Run W) :
    (∃ resp raw w, tryH3 s net hop r = (some resp, ⟨w, r.sent ++ [⟨.h3, .ok raw⟩]⟩) ∧
      resp.statusCode = raw.status ∧ resends mode s net hop r.world = false) ∨
    (∃ answer w, tryH3 s net hop r = (none, ⟨w, r.sent ++ [⟨.h3, answer⟩]⟩) ∧
      resends mode s net hop r.world =
        (!Transmission.refused ⟨.h3, answer⟩ && goesOut mode s net hop w)) ∨
    ∃ w, tryH3 s net hop r = (none, ⟨w, r.sent⟩) ∧ resends mode s net hop r.world = false := by
  unfold tryH3 resends
  split
  · rcases h3Request net hop r.world with ⟨exc | answer, w⟩
    · exact .inr (.inr ⟨w, rfl, rfl⟩)
    · dsimp only
      cases hmake : answer.bind fun raw => Response.make net.codecs raw "h3" (h3Url hop) 0 with
      | ok resp =>
          obtain ⟨raw, rfl, hstatus⟩ := status_of_make hmake
          exact .inl ⟨resp, raw, w, rfl, hstatus, rfl⟩
      | error exc => exact .inr (.inl ⟨answer, w, rfl, rfl⟩)
  · exact .inr (.inr ⟨r.world, rfl, rfl⟩)

-- A pass sends the request twice exactly when it loses it over h3 and goes on.
theorem adds_sendOnce (mode : Mode) (s : Session) (net : Net W ε δ) (hop : Hop) (r : Run W)
    (hm : hop.method ∉ IDEMPOTENT) :
    ∃ news, Adds r (sendOnce mode s net hop r) news ∧
      (NoDuplicates news ↔ resends mode s net hop r.world = false) := by
  unfold sendOnce
  rw [attemptCount_eq_one s hop hm]
  rcases tryH3_cases mode s net hop r with ⟨resp, raw, w, htry, hstatus, hno⟩ | ⟨answer, w, htry, hre⟩ |
    ⟨w, htry, hno⟩ <;> rw [htry] <;> dsimp only
  · refine ⟨[⟨.h3, .ok raw⟩], ⟨rfl, ?_⟩, iff_of_true (List.isChain_singleton _) hno⟩
    rintro _ ⟨⟩
    exact ⟨_, rfl, raw, rfl, hstatus⟩
  · rw [attempts_one]
    obtain ⟨news, hadds, hlen, hnil⟩ := adds_attempt mode s net hop ⟨w, r.sent ++ [⟨.h3, answer⟩]⟩
    refine ⟨⟨.h3, answer⟩ :: news, ⟨?_, ?_⟩, ?_⟩
    · rw [hadds.sent, List.append_assoc, List.singleton_append]
    · intro resp hresp
      obtain ⟨t, ht, hraw⟩ := hadds.answer resp hresp
      exact ⟨t, by simp [List.getLast?_cons, Option.mem_def.mp ht], hraw⟩
    · rw [hre]
      match news, hlen with
      | [], _ => simp [NoDuplicates, hnil.mp rfl]
      | [t], _ =>
          have hgoes : goesOut mode s net hop w = true := by
            by_contra hno
            exact absurd (hnil.mpr (by simpa using hno)) (by simp)
          simp [NoDuplicates, hgoes]
  · rw [attempts_one]
    obtain ⟨news, hadds, hlen, _⟩ := adds_attempt mode s net hop ⟨w, r.sent⟩
    refine ⟨news, ⟨hadds.sent, hadds.answer⟩, iff_of_true ?_ hno⟩
    match news, hlen with
    | [], _ => exact List.isChain_nil
    | [t], _ => exact List.isChain_singleton t

-- What the next transmission needs: none before it, or one that was refused.
def Ready (sent : List Transmission) : Prop :=
  NoDuplicates sent ∧ ∀ t ∈ sent.getLast?, t.refused

theorem Ready.append {sent news : List Transmission} (h : Ready sent) :
    NoDuplicates (sent ++ news) ↔ NoDuplicates news := by
  unfold NoDuplicates
  rw [List.isChain_append]
  exact ⟨fun hc => hc.2.1, fun hn => ⟨h.1, hn, fun t ht _ _ => h.2 t ht⟩⟩

-- What a loop has sent stays sent.
theorem prefix_hopLoop (mode : Mode) (s : Session) (net : Net W ε δ) (hop : Hop)
    (hm : hop.method ∉ IDEMPOTENT) (left attempt : Nat) (r : Run W) :
    r.sent <+: (hopLoop mode s net hop left attempt r).2.sent := by
  induction left generalizing attempt r with
  | zero =>
      obtain ⟨news, hadds, _⟩ := adds_sendOnce mode s net hop r hm
      exact ⟨news, hadds.sent.symm⟩
  | succ left ih =>
      obtain ⟨news, hadds, _⟩ := adds_sendOnce mode s net hop r hm
      have honce : r.sent <+: (sendOnce mode s net hop r).2.sent := ⟨news, hadds.sent.symm⟩
      unfold hopLoop
      rcases heq : sendOnce mode s net hop r with ⟨exc | resp, r'⟩ <;> rw [heq] at honce <;> dsimp only
      · exact honce
      · by_cases hbusy : busy resp.statusCode
        · rw [if_pos hbusy]
          rcases pause net resp.headers attempt r'.world with ⟨_ | exc, w⟩
          · exact honce.trans (ih (attempt + 1) { r' with world := w })
          · exact honce
        · rw [if_neg hbusy]
          exact honce

theorem noDuplicates_hopLoop (mode : Mode) (s : Session) (net : Net W ε δ) (hop : Hop)
    (hm : hop.method ∉ IDEMPOTENT) (left attempt : Nat) (r : Run W) (hr : Ready r.sent) :
    NoDuplicates (hopLoop mode s net hop left attempt r).2.sent ↔
      NoneResends mode s net hop left attempt r := by
  induction left generalizing attempt r with
  | zero =>
      obtain ⟨news, hadds, hiff⟩ := adds_sendOnce mode s net hop r hm
      unfold hopLoop NoneResends
      rw [hadds.sent, hr.append, hiff]
  | succ left ih =>
      obtain ⟨news, hadds, hiff⟩ := adds_sendOnce mode s net hop r hm
      have honce : NoDuplicates (sendOnce mode s net hop r).2.sent ↔
          resends mode s net hop r.world = false := by
        rw [hadds.sent, hr.append, hiff]
      unfold hopLoop NoneResends
      rcases heq : sendOnce mode s net hop r with ⟨exc | resp, r'⟩ <;> rw [heq] at hadds honce
      · simpa using honce
      · dsimp only
        by_cases hbusy : busy resp.statusCode
        · obtain ⟨t, ht, raw, hanswer, hstatus⟩ := hadds.answer resp rfl
          have hrefused : t.refused = true := by
            simpa [Transmission.refused, hanswer, ← hstatus] using hbusy
          have hready : NoDuplicates r'.sent → Ready r'.sent := by
            refine fun hn => ⟨hn, fun t' ht' => ?_⟩
            rw [hadds.sent, List.getLast?_append, Option.mem_def.mp ht] at ht'
            obtain rfl : t = t' := by simpa using ht'
            exact hrefused
          rw [if_pos hbusy]
          rcases pause net resp.headers attempt r'.world with ⟨_ | exc, w⟩ <;> dsimp only
          · have hnext := ih (attempt + 1) { r' with world := w }
            constructor
            · intro hn
              have hn' : NoDuplicates r'.sent :=
                hn.prefix (prefix_hopLoop mode s net hop hm left (attempt + 1) { r' with world := w })
              exact ⟨honce.mp hn', fun _ => (hnext (hready hn')).mp hn⟩
            · rintro ⟨hno, hrest⟩
              exact (hnext (hready (honce.mpr hno))).mpr (hrest hbusy)
          · rw [honce]
            exact ⟨fun hno => ⟨hno, fun _ => trivial⟩, And.left⟩
        · rw [if_neg hbusy, honce]
          exact ⟨fun hno => ⟨hno, fun hb => absurd hb hbusy⟩, And.left⟩

-- The setting, the target or a body keeps every pass from the h3 process.
theorem resends_of_barred (mode : Mode) (s : Session) (net : Net W ε δ) (hop : Hop)
    (h : h3Possible s hop = false ∨ hop.body.truthy = true) (w : W) :
    resends mode s net hop w = false := by
  unfold resends
  split
  · rename_i htry
    obtain ⟨hs, hx, hshould⟩ := htry
    unfold shouldTryH3 at hshould
    split at hshould
    · cases hshould
    · rename_i hno
      simp only [not_or, Decidable.not_not, Bool.not_eq_false] at hno
      obtain ⟨hsetting, hport, hbundled⟩ := hno
      rcases h with hposs | hbody
      · simp [h3Possible, hs, hx, hsetting, hport] at hposs
      · simp [h3Request, hbundled, hbody]
  · rfl

theorem noneResends_of_barred (mode : Mode) (s : Session) (net : Net W ε δ) (hop : Hop)
    (h : h3Possible s hop = false ∨ hop.body.truthy = true) (left attempt : Nat) (r : Run W) :
    NoneResends mode s net hop left attempt r := by
  induction left generalizing attempt r with
  | zero => exact resends_of_barred mode s net hop h r.world
  | succ left ih =>
      refine ⟨resends_of_barred mode s net hop h r.world, ?_⟩
      split
      · trivial
      · intro _
        split
        · trivial
        · exact ih _ _

-- Where a launched h3 attempt fails, and what comes after it is written too.
def lostOverH3 : Net Unit Nat (List Bytes) where
  hpack := ⟨0, [], fun enc _ => (enc, .ok []), fun dec _ => (dec, .ok [])⟩
  codecs := ⟨fun _ _ _ => .error .zlibError, fun _ => .error .otherError, fun _ _ => .error .otherError⟩
  bundled _ := true
  known _ _ := true
  runH3 _ w := (.launched (.error (.runtimeError "h3: could not read response status")), w)
  existingConn _ w := (none, w)
  getConn _ w := (.ok (.http1 ⟨fun _ => none, []⟩), w)
  isdigit _ := false
  uniform low _ w := (low, w)
  sleep _ w := w

theorem lostOverH3_sendOnce (mode : Mode) (s : Session) (hop : Hop) (hm : hop.method ∉ IDEMPOTENT)
    (hposs : h3Possible s hop = true) (hbody : hop.body.truthy = false) :
    sendOnce mode s lostOverH3 hop ⟨(), []⟩ = (.error .indexError,
      ⟨(), [⟨.h3, .error (.runtimeError "h3: could not read response status")⟩,
        ⟨.http1, .error .indexError⟩]⟩) := by
  simp only [h3Possible, Bool.and_eq_true, decide_eq_true_eq] at hposs
  obtain ⟨⟨⟨hs, hx⟩, hsetting⟩, hport⟩ := hposs
  have hshould : shouldTryH3 s lostOverH3 hop () = true := by
    simp [shouldTryH3, lostOverH3, hsetting, hport]
  have htry : tryH3 s lostOverH3 hop ⟨(), []⟩ =
      (none, ⟨(), [⟨.h3, .error (.runtimeError "h3: could not read response status")⟩]⟩) := by
    unfold tryH3
    rw [if_pos ⟨hs, hx, hshould⟩]
    simp [h3Request, lostOverH3, hbody, Except.bind]
  have hoctets : Http1.octets hop.body = some [] := by
    cases hb : hop.body with
    | bytes data => simpa [Http1.octets, Body.truthy, hb] using hbody
    | other truthy => simpa [Http1.octets, Body.truthy, hb] using hbody
  have hread : Http1.readResponse ⟨[], []⟩ = some (.error .indexError) := rfl
  have hanswer : http1Request ⟨fun _ => none, []⟩ hop = .error .indexError := by
    simp [http1Request, Http1.request, hoctets, hread, Except.map]
  have hobtain : obtain mode lostOverH3 hop () = (.ok (.http1 ⟨fun _ => none, []⟩), ()) := by
    cases mode <;> rfl
  unfold sendOnce
  rw [htry]
  dsimp only
  rw [attemptCount_eq_one s hop hm, attempts_one]
  unfold attempt
  rw [hobtain]
  simp [hanswer, hoctets, Except.bind]

theorem lostOverH3_sent (mode : Mode) (s : Session) (hop : Hop) (hm : hop.method ∉ IDEMPOTENT)
    (hposs : h3Possible s hop = true) (hbody : hop.body.truthy = false) :
    (doHop mode s lostOverH3 hop ⟨(), []⟩).2.sent =
      [⟨.h3, .error (.runtimeError "h3: could not read response status")⟩,
        ⟨.http1, .error .indexError⟩] := by
  have honce := lostOverH3_sendOnce mode s hop hm hposs hbody
  unfold doHop hopLoop
  split <;> rw [honce]

-- A request with a method outside IDEMPOTENT is not sent twice exactly when no
-- pass loses it over h3 and goes on; a refusal whose Retry-After cannot be read
-- has no pass behind it. No network can bring that about exactly
-- when the setting, the target or a body rules the h3 attempt out.
theorem no_duplicates_iff (mode : Mode) (s : Session) (hop : Hop) (hm : hop.method ∉ IDEMPOTENT) :
    (∀ (W ε δ : Type) (net : Net W ε δ) (w : W),
      NoDuplicates (doHop mode s net hop ⟨w, []⟩).2.sent ↔
        NoneResends mode s net hop s.backoffRetries 0 ⟨w, []⟩) ∧
    ((∀ (W ε δ : Type) (net : Net W ε δ) (w : W),
        NoDuplicates (doHop mode s net hop ⟨w, []⟩).2.sent) ↔
      h3Possible s hop = false ∨ hop.body.truthy = true) := by
  have hloop : ∀ (W ε δ : Type) (net : Net W ε δ) (w : W),
      NoDuplicates (doHop mode s net hop ⟨w, []⟩).2.sent ↔
        NoneResends mode s net hop s.backoffRetries 0 ⟨w, []⟩ := fun W ε δ net w =>
    noDuplicates_hopLoop mode s net hop hm s.backoffRetries 0 ⟨w, []⟩ ⟨List.isChain_nil, by simp⟩
  refine ⟨hloop, ?_, ?_⟩
  · intro h
    by_contra hno
    simp only [not_or, Bool.not_eq_false, Bool.not_eq_true] at hno
    obtain ⟨hposs, hbody⟩ := hno
    have hdup := h Unit Nat (List Bytes) lostOverH3 ()
    rw [lostOverH3_sent mode s hop hm hposs hbody] at hdup
    simp [NoDuplicates, Transmission.refused] at hdup
  · intro hbarred W ε δ net w
    exact (hloop W ε δ net w).mpr (noneResends_of_barred mode s net hop hbarred _ _ _)

def postHop (body : Bytes) : Hop :=
  ⟨"POST", "a.example", 443, "/", "a.example", [], .bytes body, 15, "https", "https://a.example/", none⟩

theorem no_duplicates_with_body :
    NoDuplicates (doHop .sync { headers := [] } lostOverH3 (postHop [0x61]) ⟨(), []⟩).2.sent :=
  (no_duplicates_iff .sync { headers := [] } (postHop [0x61]) (by decide)).2.mpr (.inr rfl)
    Unit Nat (List Bytes) lostOverH3 ()

-- A POST without a body goes out over h3, fails there, and goes out again.
theorem post_sent_twice :
    "POST" ∉ IDEMPOTENT ∧ ∃ first second,
      (doHop .sync { headers := [] } lostOverH3 (postHop []) ⟨(), []⟩).2.sent = [first, second] ∧
        first.backend = .h3 ∧ second.backend = .http1 ∧
        ¬NoDuplicates (doHop .sync { headers := [] } lostOverH3 (postHop []) ⟨(), []⟩).2.sent := by
  have htwice := lostOverH3_sent .sync { headers := [] } (postHop []) (by decide) (by decide) rfl
  refine ⟨by decide, _, _, htwice, rfl, rfl, ?_⟩
  rw [htwice]
  simp [NoDuplicates, Transmission.refused]

end NeverFox.Client
