import NeverFox.Client.Copies

namespace NeverFox.Client.Copies

-- The kind of an exception: a timeout is one, whichever class it is of.
def Raised.kind : Raised → Option Exn
  | .exn (.timeoutError _) => none
  | .exn exc => some exc
  | .asyncTimeout => none

-- A response but for the url it was made with, which `request` replaces.
def unnamed (resp : Response) : Response := { resp with url := "" }

theorem exists_url {x y : Response} (h : unnamed x = unnamed y) : ∃ url, x = { y with url := url } := by
  refine ⟨x.url, ?_⟩
  exact (congrArg (fun r : Response => { r with url := x.url }) h)

-- Two results are alike when they are the same response, the url apart, or
-- the same kind of exception.
def Alike (a b : Except Raised Response) : Prop :=
  (a.map unnamed).mapError Raised.kind = (b.map unnamed).mapError Raised.kind

-- The same for the end of a hop.
def AlikeHop (a b : Except Raised (Option Response)) : Prop :=
  (a.map (Option.map unnamed)).mapError Raised.kind = (b.map (Option.map unnamed)).mapError Raised.kind

namespace Alike

theorem refl (a : Except Raised Response) : Alike a a := rfl

theorem cases {a b : Except Raised Response} (h : Alike a b) :
    (∃ x y, a = .ok x ∧ b = .ok y ∧ unnamed x = unnamed y) ∨
      ∃ x y, a = .error x ∧ b = .error y ∧ x.kind = y.kind := by
  cases a with
  | ok x =>
      cases b with
      | ok y => exact .inl ⟨x, y, rfl, rfl, by simpa [Alike, Except.map, Except.mapError] using h⟩
      | error y => simp [Alike, Except.map, Except.mapError] at h
  | error x =>
      cases b with
      | ok y => simp [Alike, Except.map, Except.mapError] at h
      | error y => exact .inr ⟨x, y, rfl, rfl, by simpa [Alike, Except.map, Except.mapError] using h⟩

theorem ok {x y : Response} (h : unnamed x = unnamed y) : Alike (.ok x) (.ok y) := by
  simp [Alike, Except.map, Except.mapError, h]

theorem error {x y : Raised} (h : x.kind = y.kind) : Alike (.error x) (.error y) := by
  simp [Alike, Except.map, Except.mapError, h]

end Alike

variable {W : Type}

-- Making a response fails with HTTPError only, and the url has no part in it.
theorem response_cases (env : Env W) (raw : RawResponse) (proto : String) (maxBytes : Nat) :
    (∀ url url', ∃ x y, env.response raw proto url maxBytes = .ok x ∧
      env.response raw proto url' maxBytes = .ok y ∧ unnamed x = unnamed y) ∨
      ∃ message, ∀ url, env.response raw proto url maxBytes = .error (.exn (.httpError message)) := by
  unfold Env.response Response.make
  cases hd : decompress env.codecs raw.body (contentEncoding raw.headers) maxBytes with
  | ok content => exact .inl fun _ _ => ⟨_, _, rfl, rfl, rfl⟩
  | error exc =>
      obtain ⟨message, rfl⟩ := decompress_error hd
      exact .inr ⟨message, fun _ => rfl⟩

-- Neither clause for a timeout is met by what is not a connection error.
theorem not_timeout (env : Env W) {exc : Exn} (h : exc.isIOError = false) :
    env.isTimeout (.exn exc) = false ∧ env.isAsyncTimeout (.exn exc) = false ∧
      env.isIOError (.exn exc) = false := by
  cases exc <;> first | exact ⟨rfl, rfl, rfl⟩ | cases h

-- The attempts go the same way: a late response ends them in both copies, a
-- connection error takes both to the next one, anything else ends them.
theorem attempts_alike (env : Env W) (s : Session) (hop : Hop) (n : Nat) (last : Raised) (σ : Shared W) :
    (Async.attempts env s hop n last σ).2 = (Sync.attempts env s hop n last σ).2 ∧
      Alike (Async.attempts env s hop n last σ).1 (Sync.attempts env s hop n last σ).1 := by
  induction n generalizing last σ with
  | zero => exact ⟨rfl, .refl _⟩
  | succ n ih =>
      unfold Async.attempts Sync.attempts
      rcases env.exchange hop σ with ⟨outcome, τ⟩
      cases outcome with
      | response proto raw =>
          simp only [Outcome.result, Except.bind]
          rcases response_cases env raw proto (maxBytes s) with hok | ⟨message, herror⟩
          · obtain ⟨x, y, hx, hy, hxy⟩ :=
              hok hop.url s!"{hop.scheme}://{hop.authority}{hop.path}"
            rw [hx, hy]
            exact ⟨rfl, .ok hxy⟩
          · rw [herror, herror]
            exact ⟨rfl, .refl _⟩
      | timeout => exact ⟨rfl, .error rfl⟩
      | connectionError message => exact ih _ _
      | ioError message => exact ih _ _
      | other exc =>
          obtain ⟨hsync, hasync, hio⟩ := not_timeout env exc.2
          simp only [Outcome.result, Except.bind, hsync, hasync, hio]
          exact ⟨rfl, .refl _⟩

theorem sendOnce_alike (env : Env W) (s : Session) (counts : Counts) (hop : Hop) (σ : Shared W) :
    (Async.sendOnce env s counts hop σ).2 = (Sync.sendOnce env s counts hop σ).2 ∧
      Alike (Async.sendOnce env s counts hop σ).1 (Sync.sendOnce env s counts hop σ).1 := by
  unfold Async.sendOnce Sync.sendOnce
  dsimp only
  split
  · rcases env.requestH3 hop σ with ⟨answer, τ⟩
    dsimp only
    split
    · exact ⟨rfl, .refl _⟩
    · exact attempts_alike env s hop _ _ τ
  · exact attempts_alike env s hop _ _ σ

-- What the loops read of a response is not its url.
theorem passes_alike (env : Env W) (s : Session) (counts : Counts) (hop : Hop) (left attempt : Nat)
    (a b : Option Response) (hab : a.map unnamed = b.map unnamed) (σ : Shared W) :
    (Async.passes env s counts hop left attempt a σ).2 = (Sync.passes env s counts hop left attempt b σ).2 ∧
      AlikeHop (Async.passes env s counts hop left attempt a σ).1
        (Sync.passes env s counts hop left attempt b σ).1 := by
  induction left generalizing attempt a b σ with
  | zero => exact ⟨rfl, by simp [AlikeHop, Async.passes, Sync.passes, Except.map, Except.mapError, hab]⟩
  | succ left ih =>
      unfold Async.passes Sync.passes
      rcases env.delay hop.host σ with ⟨d, τ⟩
      dsimp only
      generalize (if d = 0 then τ else env.pause d τ) = τ
      obtain ⟨hstate, halike⟩ := sendOnce_alike env s counts hop τ
      rcases hasync : Async.sendOnce env s counts hop τ with ⟨x, τ'⟩
      rcases hsync : Sync.sendOnce env s counts hop τ with ⟨y, τ''⟩
      rw [hasync, hsync] at hstate halike
      obtain rfl : τ' = τ'' := hstate
      rcases halike.cases with ⟨x, y, rfl, rfl, hxy⟩ | ⟨x, y, rfl, rfl, hxy⟩
      · obtain ⟨url, rfl⟩ := exists_url hxy
        dsimp only
        split
        · rcases env.retryAfter y.headers attempt τ' with ⟨pause, τ⟩
          cases pause with
          | error exc => exact ⟨rfl, rfl⟩
          | ok seconds => exact ih _ _ _ (by simp [hxy]) _
        · exact ⟨rfl, by simp [AlikeHop, Except.map, Except.mapError, hxy]⟩
      · exact ⟨rfl, by simp [AlikeHop, Except.map, Except.mapError, hxy]⟩

theorem AlikeHop.cases {a b : Except Raised (Option Response)} (h : AlikeHop a b) :
    (a = .ok none ∧ b = .ok none) ∨
      (∃ x y, a = .ok (some x) ∧ b = .ok (some y) ∧ unnamed x = unnamed y) ∨
        ∃ x y, a = .error x ∧ b = .error y ∧ x.kind = y.kind := by
  rcases a with x | x <;> rcases b with y | y
  · exact .inr (.inr ⟨x, y, rfl, rfl, by simpa [AlikeHop, Except.map, Except.mapError] using h⟩)
  · simp [AlikeHop, Except.map, Except.mapError] at h
  · simp [AlikeHop, Except.map, Except.mapError] at h
  · cases x <;> cases y <;> simp [AlikeHop, Except.map, Except.mapError] at h
    · exact .inl ⟨rfl, rfl⟩
    · exact .inr (.inl ⟨_, _, rfl, rfl, h⟩)

-- The url of every reply is the one that was asked for, so replies are the same.
theorem follow_alike (env : Env W) (s : Session) (counts : Counts) (call : Call) (n : Nat) (v : Vars)
    (history : List Reply) (σ : Shared W) :
    (Async.follow env s counts call n v history σ).2 = (Sync.follow env s counts call n v history σ).2 ∧
      (Async.follow env s counts call n v history σ).1.mapError Raised.kind =
        (Sync.follow env s counts call n v history σ).1.mapError Raised.kind := by
  induction n generalizing v history σ with
  | zero => exact ⟨rfl, rfl⟩
  | succ n ih =>
      unfold Async.follow Sync.follow
      cases env.text.urlsplit v.url with
      | error exc => exact ⟨rfl, rfl⟩
      | ok u =>
          dsimp only
          cases u.hostname with
          | none => exact ⟨rfl, rfl⟩
          | some host =>
              dsimp only
              rcases env.headersFor s v.headers v.bodyHeaders host (requestPath env.text u v.params)
                u.scheme call.cookies v.redirectSite σ with ⟨hdrs, τ⟩
              dsimp only
              generalize (⟨v.method, host, urlPort u, requestPath env.text u v.params,
                authority host (urlPort u), hdrs, v.body, call.timeout, u.scheme, v.url,
                call.proxy.or s.proxy⟩ : Hop) = hop
              obtain ⟨hstate, halike⟩ := passes_alike env s counts hop (counts.backoffRetries + 1).toNat 0
                none none rfl τ
              rcases hasync : Async.doHop env s counts hop τ with ⟨x, τ'⟩
              rcases hsync : Sync.doHop env s counts hop τ with ⟨y, τ''⟩
              unfold Async.doHop at hasync
              unfold Sync.doHop at hsync
              rw [hasync, hsync] at hstate halike
              obtain rfl : τ' = τ'' := hstate
              rcases halike.cases with ⟨rfl, rfl⟩ | ⟨x, y, rfl, rfl, hxy⟩ | ⟨x, y, rfl, rfl, hxy⟩
              · exact ⟨rfl, rfl⟩
              · obtain ⟨url, rfl⟩ := exists_url hxy
                dsimp only
                rcases env.storeCookies host (setCookies { y with url := v.url }) τ' with ⟨raised, τ⟩
                cases raised with
                | some exc => exact ⟨rfl, rfl⟩
                | none =>
                    dsimp only
                    cases target call { y with url := v.url } with
                    | none => exact ⟨rfl, rfl⟩
                    | some location =>
                        dsimp only
                        cases env.text.urlsplit (env.text.urljoin v.url location) with
                        | error exc => exact ⟨rfl, rfl⟩
                        | ok new => exact ih _ _ _
              · exact ⟨rfl, by simp [Except.mapError, hxy]⟩

-- AsyncSession.request does what Session.request does: the same calls in the
-- same order, the same jar, limiter and h3 hosts behind them, and the same reply
-- with the same history, or an exception of the same kind.
theorem async_equals_sync (env : Env W) (s : Session) (counts : Counts) (call : Call) (σ : Shared W) :
    (Async.request env s counts call σ).2 = (Sync.request env s counts call σ).2 ∧
      (Async.request env s counts call σ).1.mapError Raised.kind =
        (Sync.request env s counts call σ).1.mapError Raised.kind :=
  follow_alike env s counts call _ _ [] σ

end NeverFox.Client.Copies
