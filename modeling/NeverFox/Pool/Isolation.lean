import NeverFox.Client.Contacts
import NeverFox.Pool.Bound
import NeverFox.Pool.Wired

namespace NeverFox.Pool

open NeverFox.H2 NeverFox.Client

variable {ε δ : Type}

-- The native call of `Transport.__init__`, with what it is given. The
-- credentials of a tunnel are sent only with a user name.
inductive Dial
  | direct (host : String) (port : Nat)
  | socks5 (proxyHost : String) (proxyPort : Nat) (host : String) (port : Nat) (user password : String)
  | tunnel (proxyHost : String) (proxyPort : Nat) (host : String) (port : Nat)
      (auth : Option (String × String))
  deriving DecidableEq

def dial (key : Key) : Dial :=
  let (host, port, proxy) := key
  match proxy with
  | none => .direct host port
  | some p =>
      if "socks".toList <+: p.scheme.toList then .socks5 p.host p.port host port p.user p.password
      else .tunnel p.host p.port host port (if p.user = "" then none else some (p.user, p.password))

-- Where the TLS connection ends.
def Dial.target : Dial → String × Nat
  | .direct host port | .socks5 _ _ host port _ _ | .tunnel _ _ host port _ => (host, port)

-- Where the TCP connection ends, if that is a proxy.
def Dial.via : Dial → Option (String × Nat)
  | .direct _ _ => none
  | .socks5 host port _ _ _ _ | .tunnel host port _ _ _ => some (host, port)

theorem dial_target (key : Key) : (dial key).target = (key.1, key.2.1) := by
  obtain ⟨host, port, proxy⟩ := key
  unfold dial
  cases proxy with
  | none => rfl
  | some p =>
      dsimp only
      split <;> rfl

theorem dial_via (key : Key) : (dial key).via = key.2.2.map fun p => (p.host, p.port) := by
  obtain ⟨host, port, proxy⟩ := key
  unfold dial
  cases proxy with
  | none => rfl
  | some p =>
      dsimp only
      split <;> rfl

-- What the calls were asked for, the arguments of the Transport under each
-- connection, and every connection that a call gave out.
structure Trace where
  asked : Nat → Option Key := fun _ => none
  dialled : Nat → Option Key := fun _ => none
  given : List (Option Key × Option Key) := []

-- The key a call is at work for.
def Caller.key : Caller → Option Key
  | .closing _ (.scan key) | .scanning key | .waiting key | .connecting key | .fresh key _
  | .acquired key _ | .leaving key _ => some key
  | _ => none

-- What the calls are asked for once a section has begun one.
def askedAfter (asked : Nat → Option Key) : Act → Nat → Option Key
  | .existingConn t key | .getConn t key => Function.update asked t (some key)
  | _ => asked

-- A connect dials for the key its caller has added to `_creating`.
def dialledAfter (s : State ε δ) (dialled : Nat → Option Key) : Act → Nat → Option Key
  | .connect t (.h2 _) => Function.update dialled s.made (s.caller t).connects
  | _ => dialled

namespace Trace

-- What a section gives out: a new connection that speaks HTTP/1.1, which the
-- session does not keep, or one that its caller has in hand from then on.
def gives (trace : Trace) (s next : State ε δ) : Act → List (Option Key × Option Key)
  | .connect t .http1 => [(trace.asked t, (s.caller t).connects)]
  | .closeNext t | .scan t | .leave t =>
      match next.caller t with
      | .holding i => [(trace.asked t, trace.dialled i)]
      | _ => []
  | _ => []

def note (trace : Trace) (s : State ε δ) (a : Act) (next : State ε δ) : Trace where
  asked := askedAfter trace.asked a
  dialled := dialledAfter s trace.dialled a
  given := trace.given ++ trace.gives s next a

end Trace

-- A connection under a key was dialled for that key, a call works for the key
-- it was asked for, and what it has in hand was dialled for that key too.
structure Isolated (s : State ε δ) (asked : Nat → Option Key) (dialled : Nat → Option Key) : Prop where
  unmade : ∀ i, s.made ≤ i → dialled i = none
  pooled : ∀ key, ∀ i ∈ s.pooled key, dialled i = some key
  seeks : ∀ t key, (s.caller t).key = some key → asked t = some key
  held : ∀ t i, (s.caller t).conn = some i → ∃ key, asked t = some key ∧ dialled i = some key

namespace Isolated

variable {hp : Hpack ε δ} {s s' : State ε δ} {asked asked' : Nat → Option Key}
  {dialled : Nat → Option Key}

theorem start (hp : Hpack ε δ) (maxConns : Nat) :
    Isolated (State.start hp maxConns) (fun _ => none) (fun _ => none) := by
  refine ⟨fun _ _ => rfl, ?_, ?_, ?_⟩
  · intro key i hi
    cases hi
  · intro t key h
    cases h
  · intro t i h
    cases h

-- What is dialled has been made.
theorem lt_made (h : Isolated s asked dialled) {i : Nat} {d : Key} (hd : dialled i = some d) :
    i < s.made := by
  by_contra hlt
  rw [h.unmade i (by omega)] at hd
  cases hd

-- What is dialled for a new connection is not said of any that there was.
theorem dialling (h : Isolated s asked dialled) (d : Key) :
    Isolated { s with made := s.made + 1 } asked (Function.update dialled s.made (some d)) := by
  have hold : ∀ i d', dialled i = some d' → Function.update dialled s.made (some d) i = some d' := by
    intro i d' hd
    have hlt := h.lt_made hd
    rw [Function.update_of_ne (by omega), hd]
  refine ⟨?_, fun key i hi => hold i _ (h.pooled key i hi), h.seeks, ?_⟩
  · intro i hi
    have hlt : s.made < i := hi
    rw [Function.update_of_ne (by omega)]
    exact h.unmade i (by omega)
  · intro t i hi
    obtain ⟨key, hkey, hd⟩ := h.held t i hi
    exact ⟨key, hkey, hold i _ hd⟩

-- A caller moves on for the key it works for, or with a connection dialled for it.
theorem move (h : Isolated s asked dialled) {t : Nat} {caller : Caller} (hmade : s'.made = s.made)
    (hcaller : s'.caller = Function.update s.caller t caller)
    (hasked : ∀ other, other ≠ t → asked' other = asked other)
    (hpooled : ∀ key, ∀ i ∈ s'.pooled key, i ∈ s.pooled key ∨ dialled i = some key)
    (hseeks : ∀ key, caller.key = some key → asked' t = some key)
    (hheld : ∀ i, caller.conn = some i → ∃ key, asked' t = some key ∧ dialled i = some key) :
    Isolated s' asked' dialled := by
  refine ⟨hmade ▸ h.unmade, fun key i hi => (hpooled key i hi).elim (h.pooled key i) id, ?_, ?_⟩
  · intro other key hk
    rw [hcaller] at hk
    by_cases ho : other = t
    · subst ho
      rw [Function.update_self] at hk
      exact hseeks key hk
    · rw [Function.update_of_ne ho] at hk
      rw [hasked other ho]
      exact h.seeks other key hk
  · intro other i hi
    rw [hcaller] at hi
    by_cases ho : other = t
    · subst ho
      rw [Function.update_self] at hi
      exact hheld i hi
    · rw [Function.update_of_ne ho] at hi
      rw [hasked other ho]
      exact h.held other i hi

-- Most steps leave a caller with a key and a connection that it had before.
theorem pass (h : Isolated s asked dialled) {t : Nat} {caller : Caller} (hmade : s'.made = s.made)
    (hcaller : s'.caller = Function.update s.caller t caller)
    (hpooled : ∀ key, ∀ i ∈ s'.pooled key, i ∈ s.pooled key)
    (hkey : ∀ key, caller.key = some key → (s.caller t).key = some key)
    (hconn : ∀ i, caller.conn = some i → (s.caller t).conn = some i) : Isolated s' asked dialled :=
  h.move hmade hcaller (fun _ _ => rfl) (fun key i hi => .inl (hpooled key i hi))
    (fun key hk => h.seeks t key (hkey key hk)) fun i hi => h.held t i (hconn i hi)

-- A round of `_get_conn` takes a connection from under the key it is at work for.
theorem scan (h : Isolated s asked dialled) {t : Nat} {key : Key} (hc : s.caller t = .scanning key) :
    Isolated (s.scan t key) asked dialled := by
  have hkey : asked t = some key := h.seeks t key (by rw [hc]; rfl)
  obtain ⟨picked, hpicks, hcaller, hcase⟩ := scan_picks s t key
  have hupdate := State.setCaller_update hcaller t
  have hpooled : ∀ other, ∀ i ∈ picked.pooled other, i ∈ s.pooled other :=
    fun other i hi => (hpicks.pooled other).subset hi
  rcases hcase with ⟨i, hi, _, he⟩ | ⟨_, he⟩ | ⟨_, _, he⟩ <;> rw [he]
  · refine h.move hpicks.made (hupdate _) (fun _ _ => rfl) (fun _ _ hi => .inl (hpooled _ _ hi)) nofun ?_
    rintro _ ⟨⟩
    exact ⟨key, hkey, h.pooled key i hi⟩
  · exact h.pass hpicks.made (hupdate _) hpooled (by rw [hc]; exact fun _ hk => hk) nofun
  · exact h.pass hpicks.made (hupdate _) hpooled (by rw [hc]; exact fun _ hk => hk) nofun

-- The connector dials for its key, and has what it made in hand.
theorem connect (h : Isolated s asked dialled) {t : Nat} {key : Key} (hc : s.caller t = .connecting key)
    (fate : Nat → Option Nat) :
    Isolated (s.connect hp t key (.h2 fate)) asked (Function.update dialled s.made (some key)) := by
  have hkey : asked t = some key := h.seeks t key (by rw [hc]; rfl)
  refine (h.dialling key).move rfl rfl (fun _ _ => rfl) (fun _ _ hi => .inl hi) ?_ ?_
  · rintro _ ⟨⟩
    exact hkey
  · rintro _ ⟨⟩
    exact ⟨key, hkey, Function.update_self ..⟩

-- What it has in hand was dialled for the key it inserts it under.
theorem insert (h : Isolated s asked dialled) {t i : Nat} {key : Key} (hc : s.caller t = .acquired key i) :
    Isolated (s.insert t key i) asked dialled := by
  have hkey : asked t = some key := h.seeks t key (by rw [hc]; rfl)
  obtain ⟨held, hheld, hdial⟩ := h.held t i (by rw [hc]; rfl)
  obtain rfl : held = key := Option.some.inj (hheld.symm.trans hkey)
  refine h.move rfl rfl (fun _ _ => rfl) ?_ ?_ ?_
  · intro other j hj
    rcases State.mem_insert_pooled hj with hold | ⟨rfl, rfl⟩
    · exact .inl hold
    · exact .inr hdial
  · rintro _ ⟨⟩
    exact hkey
  · rintro _ ⟨⟩
    exact ⟨held, hkey, hdial⟩

theorem step (h : Isolated s asked dialled) {a : Act} (hstep : s.step hp a = some s') :
    Isolated s' (askedAfter asked a) (dialledAfter s dialled a) := by
  cases step_happens hstep with
  | @existingConn t key _ =>
      obtain ⟨picked, conn, hpicks, _, hcaller, he, hconn⟩ := existingConn_picks s t key
      rw [he]
      refine h.move hpicks.made (State.setCaller_update hcaller t _)
        (fun other ho => Function.update_of_ne ho _ _)
        (fun other i hi => .inl ((hpicks.pooled other).subset hi)) ?_ ?_
      · intro _ hk
        cases hk
      · intro i hi
        exact ⟨key, Function.update_self .., h.pooled key i (hconn i hi)⟩
  | @getConn t key _ =>
      refine h.move rfl rfl (fun other ho => Function.update_of_ne ho _ _) (fun _ _ hi => .inl hi) ?_ ?_
      · rintro _ ⟨⟩
        exact Function.update_self ..
      · intro _ hi
        cases hi
  | close hc => exact h.pass rfl rfl (fun _ _ hi => hi) nofun nofun
  | @closeOne t i todo next hc =>
      refine h.pass rfl rfl (fun _ _ hi => hi) ?_ ?_ <;> rw [hc]
      · cases next <;> exact fun _ hk => hk
      · cases next <;> exact fun _ hi => hi
  | @proceed t next hc =>
      rcases next with key | _ | ⟨_ | i⟩ <;> refine h.pass rfl rfl (fun _ _ hi => hi) ?_ ?_ <;> rw [hc] <;>
        exact fun _ hk => hk
  | clear hc =>
      refine h.pass rfl rfl ?_ nofun nofun
      intro key i hi
      cases hi
  | scan hc => exact h.scan hc
  | wake hc => exact h.pass rfl rfl (fun _ _ hi => hi) (by rw [hc]; exact fun _ hk => hk) nofun
  | @connect t key outcome hc =>
      cases outcome with
      | failed | http1 => exact h.pass rfl rfl (fun _ _ hi => hi) (by rw [hc]; exact fun _ hk => hk) nofun
      | h2 fate =>
          have hdial : dialledAfter s dialled (.connect t (.h2 fate)) =
              Function.update dialled s.made (some key) := by
            simp [dialledAfter, hc, Caller.connects]
          rw [hdial]
          exact h.connect hc fate
  | acquire hc =>
      exact h.pass rfl rfl (fun _ _ hi => hi) (by rw [hc]; exact fun _ hk => hk)
        (by rw [hc]; exact fun _ hi => hi)
  | insert hc => exact h.insert hc
  | @leave t key conn hc =>
      cases conn with
      | none => exact h.pass rfl rfl (fun _ _ hi => hi) nofun nofun
      | some i => exact h.pass rfl rfl (fun _ _ hi => hi) nofun (by rw [hc]; exact fun _ hi => hi)
  | @send t i args hc =>
      obtain ⟨caller, he, hcaller⟩ := send_eq hp s t i args
      rw [he]
      rcases hcaller with rfl | ⟨sid, rfl, _⟩
      · exact h.pass rfl rfl (fun _ _ hi => hi) nofun nofun
      · exact h.pass rfl rfl (fun _ _ hi => hi) nofun (by rw [hc]; exact fun _ hi => hi)
  | done hc _ | expire hc =>
      exact h.pass rfl rfl (fun _ _ hi => hi) nofun (by rw [hc]; exact fun _ hi => hi)
  | abandon _ | finish _ | drop _ => exact h.pass rfl rfl (fun _ _ hi => hi) nofun nofun
  | frame _ _ | eof _ _ | readTimeout _ _ => exact ⟨h.unmade, h.pooled, h.seeks, h.held⟩

end Isolated

-- A connection that is given out was dialled for the key it was asked for.
def Sound (given : Option Key × Option Key) : Prop :=
  ∃ key, given = (some key, some key)

theorem sound_gives {hp : Hpack ε δ} {s next : State ε δ} {trace : Trace} {a : Act}
    (h : Isolated s trace.asked trace.dialled) (hstep : s.step hp a = some next) :
    ∀ given ∈ trace.gives s next a, Sound given := by
  have hnext := h.step hstep
  have hholding : ∀ t i, askedAfter trace.asked a = trace.asked →
      dialledAfter s trace.dialled a = trace.dialled → next.caller t = .holding i →
        Sound (trace.asked t, trace.dialled i) := by
    intro t i hasked hdialled hc
    obtain ⟨key, hkey, hdial⟩ := hnext.held t i (by rw [hc]; rfl)
    exact ⟨key, by rw [← hasked, ← hdialled, hkey, hdial]⟩
  intro given hgiven
  cases a with
  | connect t outcome =>
      cases outcome with
      | http1 =>
          cases step_happens hstep with
          | @connect _ key _ hc =>
              rw [List.mem_singleton.mp hgiven, h.seeks t key (by rw [hc]; rfl), hc]
              exact ⟨key, rfl⟩
      | failed | h2 _ => cases hgiven
  | closeNext t | scan t | leave t =>
      unfold Trace.gives at hgiven
      dsimp only at hgiven
      split at hgiven
      · rename_i i hc
        rw [List.mem_singleton.mp hgiven]
        exact hholding t i rfl rfl hc
      · cases hgiven
  | _ => cases hgiven

-- Over a whole run the connections stay isolated, and what is given out is sound.
theorem sound_run {hp : Hpack ε δ} {maxConns : Nat} {acts : List Act} {s : State ε δ} {trace : Trace}
    (hrun : Transition.run (Transition.noting (State.step hp) Trace.note) (.start hp maxConns, {}) acts =
      some (s, trace)) :
    Isolated s trace.asked trace.dialled ∧ ∀ given ∈ trace.given, Sound given := by
  refine Transition.invariant_always
    (fun s : State ε δ × Trace =>
      Isolated s.1 s.2.asked s.2.dialled ∧ ∀ given ∈ s.2.given, Sound given) ?_
    ⟨.start hp maxConns, fun given h => absurd h List.not_mem_nil⟩ hrun
  rintro ⟨s, trace⟩ a ⟨next, trace'⟩ ⟨hisolated, hsound⟩ hs
  obtain ⟨hnext, rfl⟩ := Transition.noting_eq_some hs
  refine ⟨hisolated.step hnext, fun given hgiven => ?_⟩
  rcases List.mem_append.mp hgiven with hold | hnew
  · exact hsound given hold
  · exact sound_gives hisolated hnext given hnew

-- In every run of a session each connection that a call gave out, and each that
-- a caller has in hand, stands on a Transport to the host, port and proxy that
-- the call was asked for; that Transport ends TLS at the host, over the proxy if
-- there is one; and a request, however it is redirected and retried, turns to
-- the pool with its own proxy only, and to h3 only without one.
theorem proxies_isolated (hp : Hpack ε δ) :
    (∀ maxConns acts s, Transition.run (State.step hp) (.start hp maxConns) acts = some s →
      ∃ trace, Transition.run (Transition.noting (State.step hp) Trace.note) (.start hp maxConns, {}) acts =
          some (s, trace) ∧ (∀ given ∈ trace.given, Sound given) ∧
        ∀ t i, (s.caller t).conn = some i →
          ∃ key, trace.asked t = some key ∧ trace.dialled i = some key) ∧
    (∀ key : Key, (dial key).target = (key.1, key.2.1) ∧
      (dial key).via = key.2.2.map fun p => (p.host, p.port)) ∧
    ∀ (W : Type) (t : Text) (mode : Mode) (s : Session) (jar : CookieJar) (src : Sources W ε δ)
      (call : Call) (clock : W × List Contact → Rat) (w : W),
      let (hops, _, r) := request t s jar call (overNet mode s src.logged clock) ⟨(w, []), []⟩
      ∀ c ∈ r.world.2, ∃ hop ∈ hops, hop.proxy = call.proxy.or s.proxy ∧
        (c = .pool hop.host hop.port hop.proxy ∨ (c = .h3 hop ∧ hop.proxy = none)) := by
  refine ⟨?_, fun key => ⟨dial_target key, dial_via key⟩, ?_⟩
  · intro maxConns acts s hrun
    obtain ⟨trace, htrace⟩ := Transition.exists_noting Trace.note hrun ({} : Trace)
    obtain ⟨hisolated, hsound⟩ := sound_run htrace
    exact ⟨trace, htrace, hsound, hisolated.held⟩
  · intro W t mode s jar src call clock w
    exact contacts_request t mode s jar src call clock w

def tunnelKey : Key := ("origin.example", 443, some ⟨"http", "proxy.example", 3128, "", ""⟩)

theorem proxies_isolated_tunnel :
    ∃ s trace, Transition.run (Transition.noting (State.step recorder) Trace.note)
        (.start recorder 6, {}) [.getConn 0 tunnelKey, .closeNext 0, .scan 0, .connect 0 .http1] =
          some (s, trace) ∧
      trace.given = [(some tunnelKey, some tunnelKey)] ∧ (∀ given ∈ trace.given, Sound given) ∧
      (dial tunnelKey).via = some ("proxy.example", 3128) := by
  obtain ⟨trace, htrace, hsound, _⟩ := (proxies_isolated recorder).1 6
    [.getConn 0 tunnelKey, .closeNext 0, .scan 0, .connect 0 .http1] _ rfl
  refine ⟨_, trace, htrace, ?_, hsound, ((proxies_isolated recorder).2.1 tunnelKey).2⟩
  obtain rfl := (Prod.mk.inj (Option.some.inj htrace)).2
  rfl

end NeverFox.Pool
