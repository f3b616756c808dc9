import NeverFox.Client.Journey
import Mathlib.Algebra.Order.Ring.Rat
import Mathlib.Tactic.Linarith

namespace NeverFox.Client.Copies

variable {W : Type}

-- One pass of `_do_hop`: what came of the request, and of `_retry_after` where it
-- is asked.
structure Round where
  answer : Except Raised Response
  pause : Option (Except Exn Rat) := none

-- The loop of `_do_hop`, over any `_send_once`, with its passes.
def rounds (once : Shared W → Except Raised Response × Shared W) (env : Env W) (counts : Counts)
    (host : String) : (left attempt : Nat) → Option Response → Shared W →
      List Round × Except Raised (Option Response) × Shared W
  | 0, _, resp, σ => ([], .ok resp, σ)
  | left + 1, attempt, _, σ =>
      let (d, σ) := env.delay host σ
      let σ := if d = 0 then σ else env.pause d σ
      match once σ with
      | (.error raised, σ) => ([⟨.error raised, none⟩], .error raised, σ)
      | (.ok resp, σ) =>
          if busy resp.statusCode ∧ (attempt : Int) < counts.backoffRetries then
            match env.retryAfter resp.headers attempt σ with
            | (.error exc, σ) => ([⟨.ok resp, some (.error exc)⟩], .error (.exn exc), σ)
            | (.ok seconds, σ) =>
                let (rest, result) :=
                  rounds once env counts host left (attempt + 1) (some resp) (env.pause seconds σ)
                (⟨.ok resp, some (.ok seconds)⟩ :: rest, result)
          else ([⟨.ok resp, none⟩], .ok (some resp), σ)

def Sync.rounds (env : Env W) (s : Session) (counts : Counts) (hop : Hop) (σ : Shared W) :
    List Round × Except Raised (Option Response) × Shared W :=
  Copies.rounds (Sync.sendOnce env s counts hop) env counts hop.host (counts.backoffRetries + 1).toNat 0
    none σ

def Async.rounds (env : Env W) (s : Session) (counts : Counts) (hop : Hop) (σ : Shared W) :
    List Round × Except Raised (Option Response) × Shared W :=
  Copies.rounds (Async.sendOnce env s counts hop) env counts hop.host (counts.backoffRetries + 1).toNat 0
    none σ

theorem sync_passes_eq (env : Env W) (s : Session) (counts : Counts) (hop : Hop) (left attempt : Nat)
    (resp : Option Response) (σ : Shared W) :
    Sync.passes env s counts hop left attempt resp σ =
      (rounds (Sync.sendOnce env s counts hop) env counts hop.host left attempt resp σ).2 := by
  induction left generalizing attempt resp σ with
  | zero => rfl
  | succ left ih =>
      unfold Sync.passes rounds
      rcases env.delay hop.host σ with ⟨d, τ⟩
      dsimp only
      rcases Sync.sendOnce env s counts hop _ with ⟨answer | answer, τ⟩
      · rfl
      · dsimp only
        split
        · rcases env.retryAfter answer.headers attempt τ with ⟨pause | pause, τ⟩
          · rfl
          · exact ih _ _ _
        · rfl

theorem async_passes_eq (env : Env W) (s : Session) (counts : Counts) (hop : Hop) (left attempt : Nat)
    (resp : Option Response) (σ : Shared W) :
    Async.passes env s counts hop left attempt resp σ =
      (rounds (Async.sendOnce env s counts hop) env counts hop.host left attempt resp σ).2 := by
  induction left generalizing attempt resp σ with
  | zero => rfl
  | succ left ih =>
      unfold Async.passes rounds
      rcases env.delay hop.host σ with ⟨d, τ⟩
      dsimp only
      rcases Async.sendOnce env s counts hop _ with ⟨answer | answer, τ⟩
      · rfl
      · dsimp only
        split
        · rcases env.retryAfter answer.headers attempt τ with ⟨pause | pause, τ⟩
          · rfl
          · exact ih _ _ _
        · rfl

-- With at most `left` sends: no pause is negative or longer than a minute, no
-- header makes an exception, and the answer of the last send is the result: the
-- first that is not busy, or the last allowed.
structure BackedOff (left : Nat) (rs : List Round) (result : Except Raised (Option Response)) : Prop where
  few : rs.length ≤ left
  capped : ∀ round ∈ rs, ∀ seconds, round.pause = some (.ok seconds) → 0 ≤ seconds ∧ seconds ≤ 60
  unraised : ∀ round ∈ rs, ∀ exc, round.pause ≠ some (.error exc)
  concluded : ∃ front last, rs = front ++ [last] ∧ result = last.answer.map some ∧
    (∀ round ∈ front, ∃ resp, round.answer = .ok resp ∧ busy resp.statusCode = true) ∧
      ∀ resp, last.answer = .ok resp → busy resp.statusCode = true → rs.length = left

-- The header is no number to isdigit(), or one to int() too.
def Readable (env : Env W) (headers : Dict String String) : Prop :=
  env.isdigit ((headers.get? "retry-after").getD "") →
    (PyText.intOfStr 10 ((headers.get? "retry-after").getD "").toList).isSome

-- So it is in every busy response but to the last send that is allowed.
def AllReadable (env : Env W) (left : Nat) (rs : List Round) : Prop :=
  ∀ i (hi : i < rs.length), i + 1 < left → ∀ resp, rs[i].answer = .ok resp →
    busy resp.statusCode = true → Readable env resp.headers

-- What random.uniform and str.isdigit are documented to do.
structure Env.Documented (env : Env W) : Prop where
  uniform : ∀ low high w, low ≤ high → low ≤ (env.uniform low high w).1 ∧ (env.uniform low high w).1 ≤ high
  isdigit : ∀ text, env.isdigit text = true → '-' ∉ text.toList

-- A pause of at most a minute, or an exception for a header that int() rejects.
theorem retryAfter_cases {env : Env W} (henv : env.Documented) (headers : Dict String String)
    (attempt : Nat) (σ : Shared W) :
    (∃ seconds, (env.retryAfter headers attempt σ).1 = .ok seconds ∧ 0 ≤ seconds ∧ seconds ≤ 60 ∧
      Readable env headers) ∨
    ∃ exc, (env.retryAfter headers attempt σ).1 = .error exc ∧ ¬Readable env headers := by
  unfold Env.retryAfter Client.retryAfter Readable
  dsimp only
  generalize (headers.get? "retry-after").getD "" = ra
  by_cases hdigit : env.isdigit ra = true
  · rw [if_pos hdigit]
    cases hint : PyText.intOfStr 10 ra.toList with
    | none => exact .inr ⟨.valueError, rfl, by simp [hdigit]⟩
    | some n =>
        have hn := PyText.intOfStr_nonneg (henv.isdigit ra hdigit) hint
        refine .inl ⟨(min n 60 : Int), rfl, ?_, ?_, fun _ => rfl⟩
        · exact_mod_cast (show (0 : Int) ≤ min n 60 by omega)
        · exact_mod_cast (show min n 60 ≤ (60 : Int) by omega)
  · rw [if_neg hdigit]
    have hbase : (0 : Rat) ≤ (min (2 ^ attempt) 30 : Nat) ∧ ((min (2 ^ attempt) 30 : Nat) : Rat) ≤ 30 := by
      refine ⟨Nat.cast_nonneg _, ?_⟩
      exact_mod_cast Nat.min_le_right (2 ^ attempt) 30
    generalize ((min (2 ^ attempt) 30 : Nat) : Rat) = base at hbase
    have hjitter := henv.uniform 0 (base / 2) σ.world (by linarith)
    refine .inl ⟨base / 2 + (env.uniform 0 (base / 2) σ.world).1, rfl, ?_, ?_, fun h => absurd h hdigit⟩
    · linarith [hbase.1, hjitter.1]
    · linarith [hbase.2, hjitter.2]

-- A send that ends the loop ends it as it should.
theorem backedOff_singleton {left : Nat} (answer : Except Raised Response)
    (hlast : ∀ resp, answer = .ok resp → busy resp.statusCode = true → left = 0) :
    BackedOff (left + 1) [⟨answer, none⟩] (answer.map some) := by
  refine ⟨by simp, ?_, ?_, [], ⟨answer, none⟩, rfl, rfl, nofun, ?_⟩
  · intro round hr seconds hs
    obtain rfl := List.mem_singleton.mp hr
    cases hs
  · intro round hr exc he
    obtain rfl := List.mem_singleton.mp hr
    cases he
  · intro resp hanswer hbusy
    rw [hlast resp hanswer hbusy]
    rfl

theorem backedOff_cons_iff {left : Nat} {resp : Response} {seconds : Rat} {rs : List Round}
    {result : Except Raised (Option Response)} (hbusy : busy resp.statusCode = true)
    (hpause : 0 ≤ seconds ∧ seconds ≤ 60) (hrs : rs ≠ []) :
    BackedOff (left + 1) (⟨.ok resp, some (.ok seconds)⟩ :: rs) result ↔ BackedOff left rs result := by
  constructor
  · intro h
    have hfew := h.few
    rw [List.length_cons] at hfew
    refine ⟨by omega, fun round hr => h.capped round (List.mem_cons_of_mem _ hr),
      fun round hr => h.unraised round (List.mem_cons_of_mem _ hr), ?_⟩
    obtain ⟨front, last, hsplit, hresult, hfront, hlast⟩ := h.concluded
    cases front with
    | nil =>
        rw [List.nil_append] at hsplit
        exact absurd (List.cons.inj hsplit).2 hrs
    | cons first front =>
        obtain ⟨rfl, rfl⟩ := List.cons.inj hsplit
        refine ⟨front, last, rfl, hresult, fun round hr => hfront round (List.mem_cons_of_mem _ hr), ?_⟩
        intro resp hanswer hb
        have hlen := hlast resp hanswer hb
        rw [List.length_cons] at hlen
        omega
  · intro h
    have hfew := h.few
    obtain ⟨front, last, rfl, hresult, hfront, hlast⟩ := h.concluded
    refine ⟨by rw [List.length_cons]; omega, ?_, ?_, _ :: front, last, rfl, hresult, ?_, ?_⟩
    · intro round hr other hs
      rcases List.mem_cons.mp hr with rfl | hr
      · cases hs
        exact hpause
      · exact h.capped round hr other hs
    · intro round hr exc he
      rcases List.mem_cons.mp hr with rfl | hr
      · cases he
      · exact h.unraised round hr exc he
    · intro round hr
      rcases List.mem_cons.mp hr with rfl | hr
      · exact ⟨resp, rfl, hbusy⟩
      · exact hfront round hr
    · intro other hanswer hb
      rw [List.length_cons, hlast other hanswer hb]

-- What a pass of the loop can be: the last one, one that a header stops, or one
-- before a pause.
theorem rounds_cases {env : Env W} (henv : env.Documented)
    (once : Shared W → Except Raised Response × Shared W) (counts : Counts) (host : String)
    (left attempt : Nat) (before : Option Response) (σ : Shared W) :
    (∃ answer, (rounds once env counts host (left + 1) attempt before σ).1 = [⟨answer, none⟩] ∧
      (rounds once env counts host (left + 1) attempt before σ).2.1 = answer.map some ∧
      ∀ resp, answer = .ok resp → busy resp.statusCode = true → counts.backoffRetries ≤ attempt) ∨
    ∃ resp, busy resp.statusCode = true ∧ (attempt : Int) < counts.backoffRetries ∧
      ((∃ exc, (rounds once env counts host (left + 1) attempt before σ).1 =
          [⟨.ok resp, some (.error exc)⟩] ∧ ¬Readable env resp.headers) ∨
        ∃ seconds τ, 0 ≤ seconds ∧ seconds ≤ 60 ∧ Readable env resp.headers ∧
          (rounds once env counts host (left + 1) attempt before σ).1 = ⟨.ok resp, some (.ok seconds)⟩ ::
            (rounds once env counts host left (attempt + 1) (some resp) τ).1 ∧
          (rounds once env counts host (left + 1) attempt before σ).2 =
            (rounds once env counts host left (attempt + 1) (some resp) τ).2) := by
  rw [rounds]
  rcases env.delay host σ with ⟨d, τ⟩
  dsimp only
  rcases once _ with ⟨raised | resp, τ⟩
  · exact .inl ⟨.error raised, rfl, rfl, nofun⟩
  · dsimp only
    by_cases hagain : busy resp.statusCode = true ∧ (attempt : Int) < counts.backoffRetries
    · rw [if_pos hagain]
      refine .inr ⟨resp, hagain.1, hagain.2, ?_⟩
      rcases retryAfter_cases henv resp.headers attempt τ with
        ⟨seconds, hpause, hlow, hhigh, hread⟩ | ⟨exc, hpause, hread⟩
      · rcases hra : env.retryAfter resp.headers attempt τ with ⟨pause, τ'⟩
        rw [hra] at hpause
        obtain rfl : pause = .ok seconds := hpause
        exact .inr ⟨seconds, _, hlow, hhigh, hread, rfl, rfl⟩
      · rcases hra : env.retryAfter resp.headers attempt τ with ⟨pause, τ'⟩
        rw [hra] at hpause
        obtain rfl : pause = .error exc := hpause
        exact .inl ⟨exc, rfl, hread⟩
    · rw [if_neg hagain]
      refine .inl ⟨.ok resp, rfl, rfl, ?_⟩
      intro other hother hbusy
      obtain rfl := Except.ok.inj hother
      have hno : ¬(attempt : Int) < counts.backoffRetries := fun hlt => hagain ⟨hbusy, hlt⟩
      omega

theorem rounds_ne_nil {env : Env W} (henv : env.Documented)
    (once : Shared W → Except Raised Response × Shared W) (counts : Counts) (host : String)
    (left attempt : Nat) (before : Option Response) (σ : Shared W) :
    (rounds once env counts host (left + 1) attempt before σ).1 ≠ [] := by
  rcases rounds_cases henv once counts host left attempt before σ with
    ⟨_, h, _⟩ | ⟨_, _, _, ⟨_, h, _⟩ | ⟨_, _, _, _, _, h, _⟩⟩ <;> rw [h] <;> exact List.cons_ne_nil _ _

theorem allReadable_cons_iff {env : Env W} {left : Nat} {round : Round} {rs : List Round} :
    AllReadable env (left + 1) (round :: rs) ↔
      (0 < left → ∀ resp, round.answer = .ok resp → busy resp.statusCode = true →
        Readable env resp.headers) ∧ AllReadable env left rs := by
  constructor
  · intro h
    refine ⟨fun hl => h 0 (by simp) (by omega), ?_⟩
    intro i hi hl
    exact h (i + 1) (by rw [List.length_cons]; omega) (by omega)
  · rintro ⟨hfirst, hrest⟩ i hi hl
    cases i with
    | zero => exact hfirst (by omega)
    | succ i => exact hrest i (by rw [List.length_cons] at hi; omega) (by omega)

-- The loop with at least one pass left, by induction on the passes.
theorem backedOff_iff {env : Env W} (henv : env.Documented)
    (once : Shared W → Except Raised Response × Shared W) (counts : Counts) (host : String)
    (left attempt : Nat) (hcount : counts.backoffRetries = attempt + left) (before : Option Response)
    (σ : Shared W) :
    BackedOff (left + 1) (rounds once env counts host (left + 1) attempt before σ).1
        (rounds once env counts host (left + 1) attempt before σ).2.1 ↔
      AllReadable env (left + 1) (rounds once env counts host (left + 1) attempt before σ).1 := by
  induction left generalizing attempt before σ with
  | zero =>
      rcases rounds_cases henv once counts host 0 attempt before σ with
        ⟨answer, hrounds, hresult, _⟩ | ⟨_, _, hlt, _⟩
      · rw [hrounds, hresult]
        have hnone : AllReadable env 1 [⟨answer, none⟩] := fun i _ hi => absurd hi (by omega)
        exact iff_of_true (backedOff_singleton answer fun _ _ _ => rfl) hnone
      · omega
  | succ left ih =>
      rcases rounds_cases henv once counts host (left + 1) attempt before σ with
        ⟨answer, hrounds, hresult, hlast⟩ | ⟨resp, hbusy, hlt, ⟨exc, hrounds, hread⟩ |
          ⟨seconds, τ, hlow, hhigh, hread, hrounds, hresult⟩⟩
      · rw [hrounds, hresult]
        have hquiet : ∀ resp, answer = .ok resp → busy resp.statusCode = true → False := by
          intro resp hanswer hbusy
          have := hlast resp hanswer hbusy
          omega
        refine iff_of_true (backedOff_singleton answer fun resp ha hb => (hquiet resp ha hb).elim) ?_
        rw [allReadable_cons_iff]
        exact ⟨fun _ resp ha hb => (hquiet resp ha hb).elim, fun i hi => absurd hi (by simp)⟩
      · rw [hrounds]
        refine iff_of_false (fun h => h.unraised _ List.mem_cons_self exc rfl) fun h => ?_
        exact hread ((allReadable_cons_iff.mp h).1 (by omega) resp rfl hbusy)
      · rw [hrounds, hresult, backedOff_cons_iff hbusy ⟨hlow, hhigh⟩ (rounds_ne_nil henv once counts host left (attempt + 1)
            (some resp) τ),
          allReadable_cons_iff, ih (attempt + 1) (by omega)]
        constructor
        · intro h
          refine ⟨fun _ other hother _ => ?_, h⟩
          obtain rfl := Except.ok.inj hother
          exact hread
        · exact fun h => h.2

-- `_do_hop` of either copy, with any answers of the server: at most as many sends
-- as allowed, pauses of at most a minute, the right response in the end and no
-- exception for a header, exactly when int() reads every Retry-After of a busy
-- response that isdigit() takes for a number, the last allowed one apart.
theorem backoff_bounded_iff (env : Env W) (henv : env.Documented) (s : Session) (counts : Counts)
    (hretries : 0 ≤ counts.backoffRetries) (hop : Hop) (σ : Shared W) :
    (Sync.doHop env s counts hop σ = (Sync.rounds env s counts hop σ).2 ∧
      Async.doHop env s counts hop σ = (Async.rounds env s counts hop σ).2) ∧
    (BackedOff (counts.backoffRetries.toNat + 1) (Sync.rounds env s counts hop σ).1
        (Sync.doHop env s counts hop σ).1 ↔
      AllReadable env (counts.backoffRetries.toNat + 1) (Sync.rounds env s counts hop σ).1) ∧
    (BackedOff (counts.backoffRetries.toNat + 1) (Async.rounds env s counts hop σ).1
        (Async.doHop env s counts hop σ).1 ↔
      AllReadable env (counts.backoffRetries.toNat + 1) (Async.rounds env s counts hop σ).1) := by
  have hcount : (counts.backoffRetries + 1).toNat = counts.backoffRetries.toNat + 1 := by omega
  have hsync := sync_passes_eq env s counts hop (counts.backoffRetries + 1).toNat 0 none σ
  have hasync := async_passes_eq env s counts hop (counts.backoffRetries + 1).toNat 0 none σ
  refine ⟨⟨hsync, hasync⟩, ?_, ?_⟩
  · rw [Sync.doHop, hsync, Sync.rounds, hcount]
    exact backedOff_iff henv _ counts hop.host _ 0 (by omega) none σ
  · rw [Async.doHop, hasync, Async.rounds, hcount]
    exact backedOff_iff henv _ counts hop.host _ 0 (by omega) none σ

def busyHop : Hop := ⟨"GET", "a.example", 443, "/", "a.example", [], .bytes [], 15, "https", "https://a.example/", none⟩

def server : Env (List RawResponse) := scripted fun _ => .error .valueError

theorem server_documented : server.Documented := by
  refine ⟨fun low high _ hle => ⟨le_refl low, hle⟩, ?_⟩
  intro text hdigit hminus
  have hall : text.toList.all (fun c => PyText.isDigit 10 c || c = '²') = true := by
    have hboth := hdigit
    simp only [server, scripted, Bool.and_eq_true] at hboth
    exact hboth.2
  exact absurd (List.all_eq_true.mp hall '-' hminus) (by decide)

def askedFor (rounds : List Round) : List (Option String) :=
  rounds.map fun round =>
    match round.answer with
    | .ok resp => resp.headers.get? "retry-after"
    | .error _ => none

theorem seven_seconds : BackedOff 3
    (Sync.rounds server { headers := [] } {} busyHop
      (fresh [⟨some 429, [("Retry-After", "7")], []⟩, ⟨some 200, [], []⟩])).1
    (Sync.doHop server { headers := [] } {} busyHop
      (fresh [⟨some 429, [("Retry-After", "7")], []⟩, ⟨some 200, [], []⟩])).1 := by
  refine (backoff_bounded_iff server server_documented { headers := [] } {} (by decide) busyHop
    (fresh [⟨some 429, [("Retry-After", "7")], []⟩, ⟨some 200, [], []⟩])).2.1.mpr ?_
  have hasked : askedFor (Sync.rounds server { headers := [] } {} busyHop
      (fresh [⟨some 429, [("Retry-After", "7")], []⟩, ⟨some 200, [], []⟩])).1 = [some "7", none] := by
    decide +kernel
  generalize (Sync.rounds server { headers := [] } {} busyHop
    (fresh [⟨some 429, [("Retry-After", "7")], []⟩, ⟨some 200, [], []⟩])).1 = rs at hasked
  intro i hi _ resp hanswer _
  have hmem : resp.headers.get? "retry-after" ∈ askedFor rs := by
    refine List.mem_map.mpr ⟨rs[i], List.getElem_mem hi, ?_⟩
    rw [hanswer]
  rw [hasked] at hmem
  rcases List.mem_cons.mp hmem with hget | hget
  · rw [Readable, hget]
    decide +kernel
  · rw [Readable, List.mem_singleton.mp hget]
    decide +kernel

-- A superscript two is a digit to isdigit() and no number to int().
theorem superscript_raises :
    ((Sync.rounds server { headers := [] } {} busyHop
      (fresh [⟨some 429, [("Retry-After", "²")], []⟩, ⟨some 200, [], []⟩])).1.map Round.pause) =
        [some (.error .valueError)] ∧
    ¬BackedOff 3
      (Sync.rounds server { headers := [] } {} busyHop
        (fresh [⟨some 429, [("Retry-After", "²")], []⟩, ⟨some 200, [], []⟩])).1
      (Sync.doHop server { headers := [] } {} busyHop
        (fresh [⟨some 429, [("Retry-After", "²")], []⟩, ⟨some 200, [], []⟩])).1 := by
  have hpauses : ((Sync.rounds server { headers := [] } {} busyHop
      (fresh [⟨some 429, [("Retry-After", "²")], []⟩, ⟨some 200, [], []⟩])).1.map Round.pause) =
        [some (.error .valueError)] := by decide +kernel
  refine ⟨hpauses, fun h => ?_⟩
  obtain ⟨round, rest, hrounds, hround, _⟩ := List.map_eq_cons_iff.mp hpauses
  exact h.unraised round (by rw [hrounds]; exact List.mem_cons_self) _ hround

end NeverFox.Client.Copies
