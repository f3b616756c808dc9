import NeverFox.H2.Peer
import NeverFox.Lib.Run
import NeverFox.Pool.Lemmas

namespace NeverFox.Pool

open NeverFox.H2 NeverFox.Client

variable {ε δ : Type}

-- The key a caller has added to `_creating` and not discarded yet.
def Caller.connects : Caller → Option Key
  | .connecting key | .fresh key _ | .acquired key _ | .leaving key _ => some key
  | _ => none

-- The key a caller holds a new connection for, not yet in the pool.
def Caller.builds : Caller → Option Key
  | .fresh key _ | .acquired key _ => some key
  | _ => none

-- A connection is only made where the pool has fewer than it may.
def hasRoom (s : State ε δ) : Act → Bool
  | .connect t (.h2 _) =>
      match s.caller t with
      | .connecting key => (s.pooled key).length < s.maxConns
      | _ => true
  | _ => true

-- One connector for a key at a time, and a place for what it makes.
structure Bounded (s : State ε δ) : Prop where
  single : ∀ t t' key, (s.caller t).connects = some key → (s.caller t').connects = some key → t = t'
  creating : ∀ t key, (s.caller t).connects = some key → key ∈ s.creating
  room : ∀ t key, (s.caller t).builds = some key → (s.pooled key).length < s.maxConns
  bound : ∀ key, (s.pooled key).length ≤ s.maxConns

theorem connects_of_builds {caller : Caller} {key : Key} (h : caller.builds = some key) :
    caller.connects = some key := by
  cases caller with
  | fresh | acquired => exact h
  | _ => cases h

namespace Bounded

variable {hp : Hpack ε δ} {s s' : State ε δ}

theorem start (hp : Hpack ε δ) (maxConns : Nat) : Bounded (State.start hp maxConns) :=
  ⟨nofun, nofun, nofun, fun _ => Nat.zero_le _⟩

-- A caller moves on, and the pool grows nowhere.
theorem move (h : Bounded s) {t : Nat} {caller : Caller} (hmax : s'.maxConns = s.maxConns)
    (hcreating : s'.creating = s.creating) (hcaller : s'.caller = Function.update s.caller t caller)
    (hpooled : ∀ key, (s'.pooled key).length ≤ (s.pooled key).length)
    (hconnects : ∀ key, caller.connects = some key → (s.caller t).connects = some key)
    (hbuilds : ∀ key, caller.builds = some key →
      (s.caller t).builds = some key ∨ (s.pooled key).length < s.maxConns) : Bounded s' := by
  have hbusy : ∀ other key, (s'.caller other).connects = some key →
      (s.caller other).connects = some key := by
    intro other key hk
    rw [hcaller] at hk
    by_cases ho : other = t
    · subst ho
      exact hconnects key (by simpa using hk)
    · simpa [ho] using hk
  refine ⟨?_, ?_, ?_, ?_⟩
  · intro t₁ t₂ key h₁ h₂
    exact h.single t₁ t₂ key (hbusy t₁ key h₁) (hbusy t₂ key h₂)
  · intro other key hk
    rw [hcreating]
    exact h.creating other key (hbusy other key hk)
  · intro other key hk
    rw [hmax]
    apply Nat.lt_of_le_of_lt (hpooled key)
    rw [hcaller] at hk
    by_cases ho : other = t
    · subst ho
      exact (hbuilds key (by simpa using hk)).elim (h.room other key) id
    · exact h.room other key (by simpa [ho] using hk)
  · intro key
    rw [hmax]
    exact Nat.le_trans (hpooled key) (h.bound key)

-- Most phases connect nothing.
theorem moveIdle (h : Bounded s) {t : Nat} {caller : Caller} (hmax : s'.maxConns = s.maxConns)
    (hcreating : s'.creating = s.creating) (hcaller : s'.caller = Function.update s.caller t caller)
    (hpooled : ∀ key, (s'.pooled key).length ≤ (s.pooled key).length)
    (hconnects : caller.connects = none) : Bounded s' := by
  refine h.move hmax hcreating hcaller hpooled ?_ ?_
  · intro key hk
    rw [hconnects] at hk
    cases hk
  · intro key hk
    have hk' := connects_of_builds hk
    rw [hconnects] at hk'
    cases hk'

-- What happens on the connections changes nothing here.
theorem keep (h : Bounded s) (hmax : s'.maxConns = s.maxConns) (hcreating : s'.creating = s.creating)
    (hcaller : s'.caller = s.caller) (hpool : s'.pooled = s.pooled) : Bounded s' := by
  refine ⟨?_, ?_, ?_, ?_⟩
  · rw [hcaller]
    exact h.single
  · rw [hcaller, hcreating]
    exact h.creating
  · rw [hcaller, hpool, hmax]
    exact h.room
  · rw [hpool, hmax]
    exact h.bound

theorem connector (h : Bounded s) {picked : State ε δ} (hp : Picks s picked)
    (hcaller : picked.caller = s.caller) {t : Nat} {key : Key} (hnew : key ∉ s.creating)
    (hcreating : picked.creating = key :: s.creating) :
    Bounded (picked.setCaller t (.connecting key)) := by
  have hpooled : ∀ other, (picked.pooled other).length ≤ (s.pooled other).length :=
    fun other => (hp.pooled other).length_le
  have hnone : ∀ other, (s.caller other).connects ≠ some key :=
    fun other hk => hnew (h.creating other key hk)
  have hbusy : ∀ other found, ((picked.setCaller t (.connecting key)).caller other).connects = some found →
      (other = t ∧ found = key) ∨ ((s.caller other).connects = some found ∧ found ≠ key) := by
    intro other found hk
    rw [State.setCaller_caller, hcaller] at hk
    by_cases ho : other = t
    · subst ho
      rw [Function.update_self] at hk
      exact .inl ⟨rfl, (Option.some.inj hk).symm⟩
    · rw [Function.update_of_ne ho] at hk
      exact .inr ⟨hk, fun hf => hnone other (hf ▸ hk)⟩
  refine ⟨?_, ?_, ?_, ?_⟩
  · intro t₁ t₂ found h₁ h₂
    rcases hbusy t₁ found h₁ with ⟨rfl, hf⟩ | ⟨hk₁, hf⟩
    · exact ((hbusy t₂ found h₂).resolve_right fun hr => hr.2 hf).1.symm
    · have hk₂ := ((hbusy t₂ found h₂).resolve_left fun hl => hf hl.2).1
      exact h.single t₁ t₂ found hk₁ hk₂
  · intro other found hk
    change found ∈ picked.creating
    rw [hcreating]
    rcases hbusy other found hk with ⟨_, rfl⟩ | ⟨hk, _⟩
    · exact List.mem_cons_self
    · exact List.mem_cons_of_mem _ (h.creating other found hk)
  · intro other found hk
    rw [State.setCaller_caller, hcaller] at hk
    have hold : (s.caller other).builds = some found := by
      by_cases ho : other = t
      · subst ho
        rw [Function.update_self] at hk
        cases hk
      · rwa [Function.update_of_ne ho] at hk
    change (picked.pooled found).length < picked.maxConns
    rw [hp.maxConns]
    exact Nat.lt_of_le_of_lt (hpooled found) (h.room other found hold)
  · intro found
    change (picked.pooled found).length ≤ picked.maxConns
    rw [hp.maxConns]
    exact Nat.le_trans (hpooled found) (h.bound found)

-- The connector puts its connection into the place that was left for it.
theorem insert (h : Bounded s) {t i : Nat} {key : Key} (hc : s.caller t = .acquired key i) :
    Bounded (s.insert t key i) := by
  have hbuilds : (s.caller t).builds = some key := by rw [hc]; rfl
  have hconnects : (s.caller t).connects = some key := connects_of_builds hbuilds
  have hcaller : (s.insert t key i).caller = Function.update s.caller t (.leaving key (some i)) := rfl
  have hpooled : ∀ other, (s.insert t key i).pooled other =
      if other = key then s.pooled key ++ [i] else s.pooled other :=
    s.insert_pooled t i key
  have hbusy : ∀ other found, ((s.insert t key i).caller other).connects = some found →
      (s.caller other).connects = some found := by
    intro other found hk
    rw [hcaller] at hk
    by_cases ho : other = t
    · subst ho
      rw [Function.update_self] at hk
      exact hk ▸ hconnects
    · rwa [Function.update_of_ne ho] at hk
  refine ⟨?_, ?_, ?_, ?_⟩
  · intro t₁ t₂ found h₁ h₂
    exact h.single t₁ t₂ found (hbusy t₁ found h₁) (hbusy t₂ found h₂)
  · intro other found hk
    exact h.creating other found (hbusy other found hk)
  · intro other found hk
    rw [hcaller] at hk
    by_cases ho : other = t
    · subst ho
      rw [Function.update_self] at hk
      cases hk
    · rw [Function.update_of_ne ho] at hk
      have hf : found ≠ key := by
        rintro rfl
        exact ho (h.single other t found (connects_of_builds hk) hconnects)
      rw [hpooled, if_neg hf]
      exact h.room other found hk
  · intro found
    rw [hpooled]
    split
    · have hroom := h.room t key hbuilds
      rw [List.length_append, List.length_singleton]
      exact hroom
    · exact h.bound found

theorem leave (h : Bounded s) {t : Nat} {key : Key} {conn : Option Nat} (caller : Caller)
    (hc : s.caller t = .leaving key conn) (hidle : caller.connects = none) :
    Bounded ({ s with creating := s.creating.erase key }.setCaller t caller) := by
  have hconnects : (s.caller t).connects = some key := by rw [hc]; rfl
  have hbusy : ∀ other found, (Function.update s.caller t caller other).connects = some found →
      other ≠ t ∧ (s.caller other).connects = some found := by
    intro other found hk
    by_cases ho : other = t
    · subst ho
      rw [Function.update_self, hidle] at hk
      cases hk
    · rw [Function.update_of_ne ho] at hk
      exact ⟨ho, hk⟩
  refine ⟨?_, ?_, ?_, h.bound⟩
  · intro t₁ t₂ found h₁ h₂
    exact h.single t₁ t₂ found (hbusy t₁ found h₁).2 (hbusy t₂ found h₂).2
  · intro other found hk
    obtain ⟨ho, hold⟩ := hbusy other found hk
    have hf : found ≠ key := by
      rintro rfl
      exact ho (h.single other t found hold hconnects)
    exact (List.mem_erase_of_ne hf).mpr (h.creating other found hold)
  · intro other found hk
    obtain ⟨ho, _⟩ := hbusy other found (connects_of_builds hk)
    rw [State.setCaller_caller, Function.update_of_ne ho] at hk
    exact h.room other found hk

theorem step (h : Bounded s) {a : Act} (hroom : hasRoom s a) (hs : s.step hp a = some s') :
    Bounded s' := by
  have hsame : ∀ key, (s.pooled key).length ≤ (s.pooled key).length := fun _ => Nat.le_refl _
  cases step_happens hs with
  | @existingConn t key hc =>
      obtain ⟨picked, conn, hp, hcreating, hcaller, he, _⟩ := existingConn_picks s t key
      rw [he]
      exact h.moveIdle hp.maxConns hcreating (State.setCaller_update hcaller t _)
        (fun key => (hp.pooled key).length_le) rfl
  | getConn key hc => exact h.moveIdle rfl rfl rfl hsame rfl
  | close hc => exact h.moveIdle rfl rfl rfl hsame rfl
  | closeOne hc => exact h.moveIdle rfl rfl rfl hsame rfl
  | @proceed t next hc =>
      cases next with
      | scan key => exact h.moveIdle rfl rfl rfl hsame rfl
      | clear => exact h.moveIdle rfl rfl rfl hsame rfl
      | hand conn => cases conn <;> exact h.moveIdle rfl rfl rfl hsame rfl
  | clear hc => exact h.moveIdle rfl rfl rfl (fun _ => Nat.zero_le _) rfl
  | @scan t key hc =>
      obtain ⟨picked, hp, hcaller, hcase⟩ := scan_picks s t key
      have hle : ∀ key, (picked.pooled key).length ≤ (s.pooled key).length :=
        fun key => (hp.pooled key).length_le
      rcases hcase with ⟨i, _, hcreating, he⟩ | ⟨hcreating, he⟩ | ⟨hnew, hcreating, he⟩ <;> rw [he]
      · exact h.moveIdle hp.maxConns hcreating (State.setCaller_update hcaller t _) hle rfl
      · exact h.moveIdle hp.maxConns hcreating (State.setCaller_update hcaller t _) hle rfl
      · exact h.connector hp hcaller hnew hcreating
  | wake hc => exact h.moveIdle rfl rfl rfl hsame rfl
  | @connect t key outcome hc =>
      have hconnects : (s.caller t).connects = some key := by rw [hc]; rfl
      cases outcome with
      | failed | http1 =>
          refine h.move rfl rfl rfl hsame ?_ nofun
          rintro found ⟨⟩
          exact hconnects
      | h2 fate =>
          refine h.move rfl rfl rfl hsame ?_ ?_
          · rintro found ⟨⟩
            exact hconnects
          · rintro found ⟨⟩
            simp only [hasRoom, hc, decide_eq_true_eq] at hroom
            exact .inr hroom
  | @acquire t i key hc =>
      refine h.move rfl rfl rfl hsame ?_ ?_
      · rintro found ⟨⟩
        rw [hc]
        rfl
      · rintro found ⟨⟩
        rw [hc]
        exact .inl rfl
  | insert hc => exact h.insert hc
  | @leave t key conn hc => cases conn <;> exact h.leave _ hc rfl
  | @send t i args hc =>
      obtain ⟨caller, he, hcaller⟩ := send_eq hp s t i args
      rw [he]
      rcases hcaller with rfl | ⟨sid, rfl, _⟩ <;> exact h.moveIdle rfl rfl rfl hsame rfl
  | abandon hc => exact h.moveIdle rfl rfl rfl hsame rfl
  | done hc hd => exact h.moveIdle rfl rfl rfl hsame rfl
  | expire hc => exact h.moveIdle rfl rfl rfl hsame rfl
  | finish hc => exact h.moveIdle rfl rfl rfl hsame rfl
  | drop hc => exact h.moveIdle rfl rfl rfl hsame rfl
  | frame hi hs => exact h.keep rfl rfl rfl rfl
  | eof hi hs => exact h.keep rfl rfl rfl rfl
  | readTimeout hi hs => exact h.keep rfl rfl rfl rfl

end Bounded

-- The bound holds while no connection is made for a key whose pool is full:
-- between a connect and its insert no other connection can come in.
theorem pool_bounded (hp : Hpack ε δ) (maxConns : Nat) (acts : List Act) (s : State ε δ)
    (hroom : Transition.Meets (State.step hp) (fun s a => hasRoom s a) (.start hp maxConns) acts)
    (hrun : Transition.run (State.step hp) (.start hp maxConns) acts = some s) :
    ∀ key, (s.pooled key).length ≤ s.maxConns :=
  (Transition.invariant Bounded (fun _ _ _ h hroom hs => h.step hroom hs) (.start hp maxConns) hroom
    hrun).bound

def originKey : Key := ("a.example", 443, none)

-- A cold caller connects, and sends on what it made.
def firstRequest : List Act :=
  [.getConn 0 originKey, .closeNext 0, .scan 0, .connect 0 (.h2 fun _ => none), .acquire 0, .insert 0,
    .leave 0, .send 0 getRequest]

theorem pool_bounded_one_connection :
    ∃ s, Transition.run (State.step recorder) (.start recorder 1) firstRequest = some s ∧
      s.pooled originKey = [0] ∧ (s.pooled originKey).length ≤ 1 :=
  ⟨_, rfl, by decide, pool_bounded recorder 1 firstRequest _ (by decide) rfl originKey⟩

-- The peer allows one stream at a time, so the next caller makes a second
-- connection, whatever the bound.
theorem saturated_pool_overflows :
    ∃ s, Transition.run (State.step recorder) (.start recorder 1)
        (firstRequest ++ [.frame 0 ⟨.settings, 0, 0, [0, 3, 0, 0, 0, 1]⟩, .getConn 1 originKey,
          .closeNext 1, .scan 1, .connect 1 (.h2 fun _ => none), .acquire 1, .insert 1]) = some s ∧
      s.maxConns = 1 ∧ s.pooled originKey = [0, 1] :=
  ⟨_, rfl, rfl, by decide⟩

end NeverFox.Pool
