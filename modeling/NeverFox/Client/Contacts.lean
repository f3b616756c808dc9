import NeverFox.Client.Redirect

namespace NeverFox.Client

variable {W ε δ : Type}

-- What a request turns to for an answer: the pool, under a key, or neqo-client.
inductive Contact
  | pool (host : String) (port : Nat) (proxy : Option Proxy)
  | h3 (hop : Hop)

-- The network with the arguments that `_send_once` passes to it.
structure Sources (W ε δ : Type) where
  hpack : H2.Hpack ε δ
  codecs : Codecs
  bundled : W → Bool
  known : String → W → Bool
  runH3 : Hop → W → H3Run × W
  existingConn : String → Nat → Option Proxy → W → Option (Lease ε δ) × W
  getConn : String → Nat → Nat → Option Proxy → W → Except Exn (Handle ε δ) × W
  isdigit : String → Bool
  uniform : Rat → Rat → W → Rat × W
  sleep : Rat → W → W

-- Every call leaves its contact behind.
def Sources.logged (src : Sources W ε δ) : Net (W × List Contact) ε δ where
  hpack := src.hpack
  codecs := src.codecs
  bundled w := src.bundled w.1
  known host w := src.known host w.1
  runH3 hop w :=
    let (run, world) := src.runH3 hop w.1
    (run, world, w.2 ++ [.h3 hop])
  existingConn hop w :=
    let (lease, world) := src.existingConn hop.host hop.port hop.proxy w.1
    (lease, world, w.2 ++ [.pool hop.host hop.port hop.proxy])
  getConn hop w :=
    let (handle, world) := src.getConn hop.host hop.port hop.timeout hop.proxy w.1
    (handle, world, w.2 ++ [.pool hop.host hop.port hop.proxy])
  isdigit := src.isdigit
  uniform low high w :=
    let (jitter, world) := src.uniform low high w.1
    (jitter, world, w.2)
  sleep seconds w := (src.sleep seconds w.1, w.2)

-- A contact that a hop may make: the pool under its own host, port and proxy,
-- or the h3 backend if it has no proxy.
def Hop.Allows (hop : Hop) (c : Contact) : Prop :=
  c = .pool hop.host hop.port hop.proxy ∨ (c = .h3 hop ∧ hop.proxy = none)

-- The log grows by contacts with a property.
def Logs (P : Contact → Prop) (before after : List Contact) : Prop :=
  ∃ news, after = before ++ news ∧ ∀ c ∈ news, P c

namespace Logs

variable {P Q : Contact → Prop} {before middle after : List Contact}

theorem refl (P : Contact → Prop) (before : List Contact) : Logs P before before :=
  ⟨[], by simp, by simp⟩

theorem one {c : Contact} (h : P c) (before : List Contact) : Logs P before (before ++ [c]) :=
  ⟨[c], rfl, by simpa using h⟩

theorem trans (h : Logs P before middle) (h' : Logs P middle after) : Logs P before after := by
  obtain ⟨news, rfl, hnews⟩ := h
  obtain ⟨more, rfl, hmore⟩ := h'
  refine ⟨news ++ more, by simp, fun c hc => ?_⟩
  rcases List.mem_append.mp hc with hc | hc
  · exact hnews c hc
  · exact hmore c hc

theorem weaken (h : Logs P before after) (hpq : ∀ c, P c → Q c) : Logs Q before after := by
  obtain ⟨news, rfl, hnews⟩ := h
  exact ⟨news, rfl, fun c hc => hpq c (hnews c hc)⟩

end Logs

section

variable (mode : Mode) (s : Session) (src : Sources W ε δ) (hop : Hop)

theorem logs_obtain (w : W × List Contact) :
    Logs hop.Allows w.2 (obtain mode src.logged hop w).2.2 := by
  have hpool : hop.Allows (.pool hop.host hop.port hop.proxy) := .inl rfl
  unfold obtain
  cases mode with
  | sync => exact .one hpool w.2
  | async =>
      dsimp only
      split
      · rename_i w' hw
        obtain rfl := (Prod.mk.inj hw).2
        exact .one hpool w.2
      · rename_i w' hw
        obtain rfl := (Prod.mk.inj hw).2
        exact (Logs.one hpool w.2).trans (.one hpool _)

theorem logs_attempt (r : Run (W × List Contact)) :
    Logs hop.Allows r.world.2 (attempt mode s src.logged hop r).2.world.2 := by
  have hobtain := logs_obtain mode src hop r.world
  unfold attempt
  split <;> rename_i hw <;> rw [hw] at hobtain <;> exact hobtain

theorem logs_attempts (n : Nat) (last : Exn) (r : Run (W × List Contact)) :
    Logs hop.Allows r.world.2 (attempts mode s src.logged hop n last r).2.world.2 := by
  induction n generalizing last r with
  | zero => exact .refl _ _
  | succ n ih =>
      have hattempt := logs_attempt mode s src hop r
      unfold attempts
      split <;> rename_i ha <;> rw [ha] at hattempt
      · exact hattempt
      · split
        · exact hattempt.trans (ih _ _)
        · exact hattempt

-- The guard on the proxy stands in front of the launch.
theorem logs_tryH3 (r : Run (W × List Contact)) :
    Logs hop.Allows r.world.2 (tryH3 s src.logged hop r).2.world.2 := by
  unfold tryH3
  split
  · rename_i hguard
    have hlaunch : Logs hop.Allows r.world.2 (h3Request src.logged hop r.world).2.2 := by
      unfold h3Request
      split
      · exact .refl _ _
      · split
        · exact .refl _ _
        · exact .one (.inr ⟨rfl, hguard.2.1⟩) _
    split <;> rename_i hw <;> rw [hw] at hlaunch
    · exact hlaunch
    · dsimp only
      split <;> exact hlaunch
  · exact .refl _ _

theorem logs_sendOnce (r : Run (W × List Contact)) :
    Logs hop.Allows r.world.2 (sendOnce mode s src.logged hop r).2.world.2 := by
  have htry := logs_tryH3 s src hop r
  unfold sendOnce
  split <;> rename_i ht <;> rw [ht] at htry
  · exact htry
  · exact htry.trans (logs_attempts mode s src hop _ _ _)

-- A pause turns to nothing.
theorem log_pause (headers : Dict String String) (attempt : Nat) (w : W × List Contact) :
    (pause src.logged headers attempt w).2.2 = w.2 := by
  have hwait : (retryAfter src.logged.isdigit src.logged.uniform headers attempt w).2.2 = w.2 := by
    unfold retryAfter
    dsimp only
    split <;> rfl
  unfold pause
  split <;> rename_i hra <;> rw [hra] at hwait <;> exact hwait

theorem logs_hopLoop (left attempt : Nat) (r : Run (W × List Contact)) :
    Logs hop.Allows r.world.2 (hopLoop mode s src.logged hop left attempt r).2.world.2 := by
  induction left generalizing attempt r with
  | zero => exact logs_sendOnce mode s src hop r
  | succ left ih =>
      have honce := logs_sendOnce mode s src hop r
      unfold hopLoop
      split <;> rename_i hs <;> rw [hs] at honce
      · exact honce
      · rename_i resp r'
        split
        · have hpause := log_pause src resp.headers attempt r'.world
          split <;> rename_i hp <;> rw [hp] at hpause <;> rw [← hpause] at honce
          · exact honce
          · exact honce.trans (ih _ _)
        · exact honce

end

-- What a request with a proxy may turn to, on behalf of one of its hops.
def Sanctioned (proxy : Option Proxy) (hops : List Hop) (c : Contact) : Prop :=
  ∃ hop ∈ hops, hop.proxy = proxy ∧ hop.Allows c

-- A redirect changes the host and the port, never the proxy.
theorem logs_follow (t : Text) (mode : Mode) (s : Session) (src : Sources W ε δ) (call : Call)
    (clock : W × List Contact → Rat) (n : Nat) (st : HopState) (r : Run (W × List Contact)) :
    Logs (Sanctioned (call.proxy.or s.proxy) (follow t s call (overNet mode s src.logged clock) n st r).1)
      r.world.2 (follow t s call (overNet mode s src.logged clock) n st r).2.2.world.2 := by
  induction n generalizing st r with
  | zero => exact .refl _ _
  | succ n ih =>
      unfold follow
      split
      · exact .refl _ _
      · split
        · exact .refl _ _
        · rename_i _ u _ _ host _
          have hsend := logs_hopLoop mode s src (hopOf t s call st u host (clock r.world)).1
            s.backoffRetries 0 r
          dsimp only
          split
          · refine hsend.weaken fun c hc => ?_
            exact ⟨_, List.mem_singleton_self _, rfl, hc⟩
          · rename_i next _
            refine (hsend.weaken fun c hc => ?_).trans ((ih next _).weaken fun c hc => ?_)
            · exact ⟨_, List.mem_cons_self, rfl, hc⟩
            · obtain ⟨hop, hmem, hc⟩ := hc
              exact ⟨hop, List.mem_cons_of_mem _ hmem, hc⟩

theorem contacts_request (t : Text) (mode : Mode) (s : Session) (jar : CookieJar) (src : Sources W ε δ)
    (call : Call) (clock : W × List Contact → Rat) (w : W) :
    ∀ c ∈ (request t s jar call (overNet mode s src.logged clock) ⟨(w, []), []⟩).2.2.world.2,
      Sanctioned (call.proxy.or s.proxy)
        (request t s jar call (overNet mode s src.logged clock) ⟨(w, []), []⟩).1 c := by
  obtain ⟨news, hnews, hallowed⟩ := logs_follow t mode s src call clock (s.maxRedirects + 1)
    (.start t s jar call) ⟨(w, []), []⟩
  unfold request
  rw [hnews]
  exact hallowed

end NeverFox.Client
