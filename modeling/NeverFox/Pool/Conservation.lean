import NeverFox.Lib.Placement
import NeverFox.Lib.Run
import NeverFox.Pool.Wired
import NeverFox.Pool.Bound

namespace NeverFox.Pool

open NeverFox.H2 NeverFox.Client Placement

variable {ε δ : Type}

-- A list that a connection of the session can be in.
inductive Place
  | pool (key : Key)
  | draining
  | todo (t : Nat)
  deriving DecidableEq

def Place.pools : Place → Bool
  | .pool _ => true
  | _ => false

-- What is left of a caller's own list of connections that it is to close.
def Caller.todo : Caller → List Nat
  | .closing todo _ => todo
  | _ => []

-- The connection that its caller has made and not inserted yet.
def Caller.newborn : Caller → Option Nat
  | .fresh _ i | .acquired _ i => some i
  | _ => none

-- In Session.close, and in front of its second locked section.
def Caller.clears : Caller → Bool
  | .closing _ .clear | .clearing => true
  | _ => false

-- Where a call of Session.close stands: behind the section of `_reap`, or
-- behind the one that clears the pool.
inductive Stage
  | reaped
  | cleared
  deriving DecidableEq

-- The connections that were inserted, those whose close() was called, and how
-- far the calls of Session.close have come.
structure Book where
  inserted : List Nat := []
  called : List Nat := []
  stage : Nat → Option Stage := fun _ => none

namespace State

def lists (s : State ε δ) : Place → List Nat
  | .pool key => s.pooled key
  | .draining => s.draining
  | .todo t => (s.caller t).todo

def insertedBy (s : State ε δ) : Act → List Nat
  | .insert t => (s.caller t).newborn.toList
  | _ => []

def calledBy (s : State ε δ) : Act → List Nat
  | .closeNext t => (s.caller t).todo.take 1
  | _ => []

def stageAfter (s : State ε δ) (stage : Nat → Option Stage) : Act → Nat → Option Stage
  | .close t => Function.update stage t (some .reaped)
  | .clear t => Function.update stage t (some .cleared)
  | .closeNext t =>
      match s.caller t with
      | .closing [] (.hand _) => Function.update stage t none
      | _ => stage
  | _ => stage

end State

def Book.note (book : Book) (s : State ε δ) (a : Act) (_ : State ε δ) : Book where
  inserted := book.inserted ++ s.insertedBy a
  called := book.called ++ s.calledBy a
  stage := s.stageAfter book.stage a

section Lists

variable (s : State ε δ) (t : Nat)

theorem setCaller_lists (caller : Caller) :
    (s.setCaller t caller).lists = Function.update s.lists (.todo t) caller.todo := by
  funext p
  cases p with
  | pool key => rfl
  | draining => rfl
  | todo u =>
      by_cases hu : u = t
      · subst hu
        simp [State.lists]
      · simp [State.lists, hu]

-- A caller with the same connections left to close is not seen in the lists.
theorem setCaller_same {caller : Caller} (h : caller.todo = (s.caller t).todo) :
    (s.setCaller t caller).lists = s.lists := by
  rw [setCaller_lists, h]
  exact Function.update_eq_self _ _

theorem evictClosed_lists (key : Key) :
    (s.evictClosed key).lists = Function.update (Function.update s.lists (.pool key)
      ((s.lists (.pool key)).filter fun i => !(s.conns i).closed)) .draining
        (s.lists .draining ++ (s.lists (.pool key)).filter fun i => (s.conns i).closed) := by
  funext p
  cases p with
  | pool other =>
      rw [Function.update_of_ne (by simp)]
      by_cases ho : other = key
      · subst ho
        simp [State.lists, State.evictClosed_pooled]
      · simp [State.lists, State.evictClosed_pooled, ho]
  | draining => simp [State.lists, State.evictClosed]
  | todo u => rfl

theorem reap_lists (next : Next) :
    (s.reap t next).lists = Function.update (Function.update s.lists .draining []) (.todo t) s.draining := by
  rw [State.reap, setCaller_lists]
  congr 1
  funext p
  cases p <;> rfl

theorem sweep_lists (next : Next) :
    (s.sweep.setCaller t (.closing s.dead next)).lists = Function.update (Function.update s.lists .draining
      (s.draining.filter fun i => (s.conns i).reading)) (.todo t) s.dead := by
  rw [setCaller_lists]
  congr 1
  funext p
  cases p <;> rfl

-- The section of `_existing_conn` sweeps, and evicts from the list of its key.
theorem existingConn_lists (key : Key) :
    (s.existingConn t key).lists =
      ((s.sweep.setCaller t (.closing s.dead (.hand none))).evictClosed key).lists := by
  rw [show (s.sweep.setCaller t (.closing s.dead (.hand none))).evictClosed key =
    (s.sweep.evictClosed key).setCaller t (.closing s.dead (.hand none)) from rfl, setCaller_lists]
  unfold State.existingConn
  split
  · rename_i hempty
    have hkey : s.sweep.pooled key = [] := hempty
    rw [setCaller_lists]
    congr 1
    funext p
    cases p with
    | pool other =>
        by_cases ho : other = key
        · subst ho
          simp [State.lists, State.evictClosed_pooled, hkey]
        · simp [State.lists, State.evictClosed_pooled, ho]
    | draining => simp [State.lists, State.evictClosed, hkey]
    | todo u => rfl
  · dsimp only
    split
    · rw [setCaller_lists]
    · rw [setCaller_lists]
      rfl

-- A round of `_get_conn` evicts from the list of its key.
theorem scan_lists {key : Key} (h : (s.caller t).todo = []) :
    (s.scan t key).lists = (s.evictClosed key).lists := by
  unfold State.scan
  dsimp only
  split
  · exact setCaller_same _ _ h.symm
  · split
    · exact setCaller_same _ _ h.symm
    · exact setCaller_same _ _ h.symm

theorem insert_lists {key : Key} {i : Nat} (h : (s.caller t).todo = []) :
    (s.insert t key i).lists = Function.update s.lists (.pool key) (s.lists (.pool key) ++ [i]) := by
  have hsame : (s.insert t key i).lists = (s.setPooled key (s.pooled key ++ [i])).lists :=
    setCaller_same _ t h.symm
  rw [hsame]
  funext p
  cases p with
  | pool other =>
      rw [show (s.setPooled key (s.pooled key ++ [i])).lists (.pool other) =
        if other = key then s.pooled key ++ [i] else s.pooled other from s.insert_pooled t i key other]
      by_cases ho : other = key
      · subst ho
        simp [State.lists]
      · simp [State.lists, ho]
  | draining => rfl
  | todo u => rfl

end Lists

-- What a step does to the lists.
inductive Shift (s s' : State ε δ) : Act → Prop
  | keep {a : Act} (hlists : s'.lists = s.lists) (hin : s.insertedBy a = []) (hcall : s.calledBy a = []) :
      Shift s s' a
  | put {t i : Nat} {key : Key} (hc : s.caller t = .acquired key i)
      (hlists : s'.lists = Function.update s.lists (.pool key) (s.lists (.pool key) ++ [i])) :
      Shift s s' (.insert t)
  | take {t i : Nat} {todo : List Nat} {next : Next} (hc : s.caller t = .closing (i :: todo) next)
      (hlists : s'.lists = Function.update s.lists (.todo t) todo) : Shift s s' (.closeNext t)
  | reap {a : Act} {t : Nat} (hc : s.caller t = .idle) (hin : s.insertedBy a = []) (hcall : s.calledBy a = [])
      (hlists : s'.lists = Function.update (Function.update s.lists .draining []) (.todo t) s.draining) :
      Shift s s' a
  | evict {t : Nat} {key : Key} (hc : s.caller t = .scanning key)
      (hlists : s'.lists = (s.evictClosed key).lists) : Shift s s' (.scan t)
  | visit {t : Nat} {key : Key} (hc : s.caller t = .idle)
      (hlists : s'.lists = ((s.sweep.setCaller t (.closing s.dead (.hand none))).evictClosed key).lists) :
      Shift s s' (.existingConn t key)
  | clear {t : Nat} (hc : s.caller t = .clearing) (hpool : ∀ key, s'.lists (.pool key) = [])
      (hdraining : s'.lists .draining = s.lists .draining)
      (htodo : ∀ u, s'.lists (.todo u) = if u = t then s.pool.values.flatten else s.lists (.todo u)) :
      Shift s s' (.clear t)

theorem step_shifts {hp : Hpack ε δ} {s s' : State ε δ} {a : Act} (hstep : s.step hp a = some s') :
    Shift s s' a := by
  cases step_happens hstep with
  | @existingConn t key hc => exact .visit hc (existingConn_lists s t key)
  | @getConn t key hc => exact .reap hc rfl rfl (reap_lists s t _)
  | @close t hc => exact .reap hc rfl rfl (reap_lists s t _)
  | @closeOne t i todo next hc =>
      refine .take hc ?_
      rw [setCaller_lists]
      rfl
  | @proceed t next hc =>
      refine .keep ?_ rfl (by simp [State.calledBy, hc, Caller.todo])
      rcases next with key | _ | ⟨_ | i⟩ <;> exact setCaller_same s t (congrArg Caller.todo hc).symm
  | @clear t hc =>
      refine .clear hc (fun key => rfl) rfl fun u => ?_
      by_cases hu : u = t
      · subst hu
        simp [State.lists, Caller.todo]
      · simp [State.lists, hu]
  | @scan t key hc => exact .evict hc (scan_lists s t (by rw [hc]; rfl))
  | @connect t key outcome hc =>
      cases outcome with
      | failed | http1 => exact .keep (setCaller_same s t (congrArg Caller.todo hc).symm) rfl rfl
      | h2 fate => exact .keep (setCaller_same _ t (congrArg Caller.todo hc).symm) rfl rfl
  | @insert t i key hc => exact .put hc (insert_lists s t (by rw [hc]; rfl))
  | @leave t key conn hc =>
      cases conn <;> exact .keep (setCaller_same _ t (congrArg Caller.todo hc).symm) rfl rfl
  | @send t i args hc =>
      obtain ⟨caller, he, hcaller⟩ := send_eq hp s t i args
      rw [he]
      rcases hcaller with rfl | ⟨sid, rfl, _⟩ <;>
        exact .keep (setCaller_same _ t (congrArg Caller.todo hc).symm) rfl rfl
  | wake hc | acquire hc | abandon hc | done hc _ | expire hc | finish hc | drop hc =>
      exact .keep (setCaller_same _ _ (congrArg Caller.todo hc).symm) rfl rfl
  | frame _ _ | eof _ _ | readTimeout _ _ => exact .keep rfl rfl rfl

-- A connection is born in a connect, and its caller keeps it until it is inserted.
inductive Births (s s' : State ε δ) (a : Act) : Prop
  | keep (hmade : s'.made = s.made) (hsame : ∀ t i, (s'.caller t).newborn = some i →
      (s.caller t).newborn = some i ∧ a ≠ .insert t)
  | born (t : Nat) (caller : Caller) (hmade : s'.made = s.made + 1)
      (hcaller : s'.caller = Function.update s.caller t caller) (hnew : caller.newborn = some s.made)
      (hin : s.insertedBy a = [])

theorem Births.move {s s' : State ε δ} {a : Act} {t : Nat} {caller : Caller} (hmade : s'.made = s.made)
    (hcaller : s'.caller = Function.update s.caller t caller) (ha : ∀ u, a = .insert u → u = t)
    (h : caller.newborn = none ∨ (caller.newborn = (s.caller t).newborn ∧ a ≠ .insert t)) :
    Births s s' a := by
  refine .keep hmade fun u i hi => ?_
  rw [hcaller] at hi
  by_cases hu : u = t
  · subst hu
    rw [Function.update_self] at hi
    rcases h with h | ⟨h, hne⟩
    · rw [h] at hi
      cases hi
    · exact ⟨h ▸ hi, hne⟩
  · rw [Function.update_of_ne hu] at hi
    exact ⟨hi, fun he => hu (ha u he)⟩

theorem step_births {hp : Hpack ε δ} {s s' : State ε δ} {a : Act} (hstep : s.step hp a = some s') :
    Births s s' a := by
  cases step_happens hstep with
  | @existingConn t key hc =>
      obtain ⟨picked, conn, hpicks, _, hcaller, he, _⟩ := existingConn_picks s t key
      rw [he]
      exact .move hpicks.made (State.setCaller_update hcaller t _) (by simp) (.inl rfl)
  | @scan t key hc =>
      obtain ⟨picked, hpicks, hcaller, hcase⟩ := scan_picks s t key
      have hupdate := State.setCaller_update hcaller t
      rcases hcase with ⟨_, _, _, he⟩ | ⟨_, he⟩ | ⟨_, _, he⟩ <;> rw [he] <;>
        exact .move hpicks.made (hupdate _) (by simp) (.inl rfl)
  | @proceed t next hc =>
      rcases next with key | _ | ⟨_ | i⟩ <;> exact .move rfl rfl (by simp) (.inl rfl)
  | @connect t key outcome hc =>
      cases outcome with
      | failed | http1 => exact .move rfl rfl (by simp) (.inl rfl)
      | h2 fate => exact .born t _ rfl rfl rfl rfl
  | @acquire t i key hc => exact .move rfl rfl (by simp) (.inr ⟨by rw [hc]; rfl, by simp⟩)
  | @leave t key conn hc => cases conn <;> exact .move rfl rfl (by simp) (.inl rfl)
  | @send t i args hc =>
      obtain ⟨caller, he, hcaller⟩ := send_eq hp s t i args
      rw [he]
      rcases hcaller with rfl | ⟨sid, rfl, _⟩ <;> exact .move rfl rfl (by simp) (.inl rfl)
  | frame _ _ | eof _ _ | readTimeout _ _ => exact .keep rfl fun _ _ hi => ⟨hi, by simp⟩
  | getConn _ _ | close _ | closeOne _ | clear _ | wake _ | insert _ | abandon _ | done _ _ | expire _
  | finish _ | drop _ => exact .move rfl rfl (by simp) (.inl rfl)

-- The connections that were inserted and not closed yet are placed. One that is
-- made and not inserted belongs to one caller.
structure Kept (s : State ε δ) (book : Book) : Prop where
  placed : Placed s.lists fun i => i ∈ book.inserted ∧ i ∉ book.called
  called : ∀ i ∈ book.called, i ∈ book.inserted
  made : ∀ i ∈ book.inserted, i < s.made
  newborn : ∀ t i, (s.caller t).newborn = some i → i < s.made ∧ i ∉ book.inserted
  apart : ∀ t t' i, (s.caller t).newborn = some i → (s.caller t').newborn = some i → t = t'

-- Evicting moves the closed connections of a key to the draining list.
theorem placed_evict {s : State ε δ} {live : Nat → Prop} (h : Placed s.lists live) (key : Key) :
    Placed (s.evictClosed key).lists live := by
  rw [evictClosed_lists]
  exact h.move (fun i => (s.conns i).closed) (by simp)

-- Reaping and sweeping move connections to the list of a caller that has none.
theorem placed_sweep {s : State ε δ} {live : Nat → Prop} (h : Placed s.lists live) {t : Nat}
    (hidle : s.caller t = .idle) (next : Next) :
    Placed (s.sweep.setCaller t (.closing s.dead next)).lists live := by
  have hmove := h.move (p := .draining) (q := .todo t) (fun i => !(s.conns i).reading) (by simp)
  rw [sweep_lists]
  simpa [State.lists, hidle, Caller.todo, State.dead] using hmove

theorem placed_reap {s : State ε δ} {live : Nat → Prop} (h : Placed s.lists live) {t : Nat}
    (hidle : s.caller t = .idle) :
    Placed (Function.update (Function.update s.lists .draining []) (.todo t) s.draining) live := by
  have hmove := h.move (p := .draining) (q := .todo t) (fun _ => true) (by simp)
  simpa [State.lists, hidle, Caller.todo] using hmove

-- Clearing the pool moves all that is in it.
theorem placed_clear {s : State ε δ} {live : Nat → Prop} (h : Placed s.lists live) {t : Nat}
    (hclearing : s.caller t = .clearing) {lists : Place → List Nat} (hpool : ∀ key, lists (.pool key) = [])
    (hdraining : lists .draining = s.lists .draining)
    (htodo : ∀ u, lists (.todo u) = if u = t then s.pool.values.flatten else s.lists (.todo u)) :
    Placed lists live := by
  have hnot : ¬(Place.todo t).pools = true := by simp [Place.pools]
  have hgather := h.gather (fun p => p.pools = true) s.pool.values.flatten hnot ?_ ?_
  · convert hgather using 1
    funext p
    cases p with
    | pool key => simp [Place.pools, hpool]
    | draining => simp [Place.pools, hdraining]
    | todo u =>
        by_cases hu : u = t
        · subst hu
          simp [Place.pools, htodo, State.lists, hclearing, Caller.todo]
        · simp [Place.pools, htodo, hu]
  · intro p hp i hi
    cases p with
    | pool key =>
        rw [Dict.count_flatten_values s.pool key i fun other ho hm => ?_]
        · exact hi
        · have hkey : i ∈ s.lists (.pool key) := List.count_pos_iff.mp (by omega)
          exact ho (Place.pool.inj (h.home_unique hm hkey))
    | draining | todo u => cases hp
  · intro i hnone hm
    obtain ⟨key, hkey⟩ := Dict.mem_flatten_values hm
    exact hnone (.pool key) rfl hkey

namespace Kept

variable {hp : Hpack ε δ} {s s' : State ε δ} {book : Book}

theorem start (hp : Hpack ε δ) (maxConns : Nat) : Kept (State.start hp maxConns) {} := by
  refine ⟨.empty ?_ (by simp), by simp, by simp, ?_, ?_⟩
  · intro p
    cases p <;> rfl
  · intro t i hi
    cases hi
  · intro t t' i hi
    cases hi

theorem placed_step (h : Kept s book) {a : Act} (hshift : Shift s s' a) :
    Placed s'.lists fun i => i ∈ (book.note s a s').inserted ∧ i ∉ (book.note s a s').called := by
  cases hshift with
  | keep hlists hin hcall =>
      rw [hlists]
      exact h.placed.congr fun i => by simp [Book.note, hin, hcall]
  | @put t i key hc hlists =>
      have hnew : i ∉ book.inserted := (h.newborn t i (by rw [hc]; rfl)).2
      have hold : i ∉ book.called := fun hi => hnew (h.called i hi)
      rw [hlists]
      refine (h.placed.put (i := i) fun hi => hnew hi.1).congr fun j => ?_
      have hcalled : j = i → j ∉ book.called := fun hj => hj ▸ hold
      simp [Book.note, State.insertedBy, State.calledBy, hc, Caller.newborn]
      tauto
  | @take t i todo next hc hlists =>
      have hlist : s.lists (.todo t) = i :: todo := congrArg Caller.todo hc
      rw [hlists]
      refine (h.placed.take hlist).congr fun j => ?_
      simp [Book.note, State.insertedBy, State.calledBy, hc, Caller.todo]
      tauto
  | reap hc hin hcall hlists =>
      rw [hlists]
      exact (placed_reap h.placed hc).congr fun i => by simp [Book.note, hin, hcall]
  | @evict t key hc hlists =>
      rw [hlists]
      refine (placed_evict h.placed key).congr fun i => ?_
      simp [Book.note, State.insertedBy, State.calledBy]
  | @visit t key hc hlists =>
      rw [hlists]
      refine (placed_evict (placed_sweep h.placed hc _) key).congr fun i => ?_
      simp [Book.note, State.insertedBy, State.calledBy]
  | @clear t hc hpool hdraining htodo =>
      refine (placed_clear h.placed hc hpool hdraining htodo).congr fun i => ?_
      simp [Book.note, State.insertedBy, State.calledBy]

-- What a section closes was inserted before.
theorem called_step (h : Kept s book) {a : Act} (hshift : Shift s s' a) :
    ∀ i ∈ s.calledBy a, i ∈ book.inserted := by
  intro i hi
  cases hshift with
  | keep _ _ hcall | reap _ _ hcall =>
      rw [hcall] at hi
      cases hi
  | @take t j todo next hc hlists =>
      have hlist : s.lists (.todo t) = j :: todo := congrArg Caller.todo hc
      have hj : i = j := by simpa [State.calledBy, hc, Caller.todo] using hi
      refine (h.placed.live_of_mem (p := .todo t) ?_).1
      rw [hlist, hj]
      exact List.mem_cons_self
  | put _ _ | evict _ _ | visit _ _ | clear _ _ _ _ => cases hi

-- What a section inserts its caller had made.
theorem newborn_of_inserted {a : Act} {i : Nat} (hi : i ∈ s.insertedBy a) :
    ∃ t, a = .insert t ∧ (s.caller t).newborn = some i := by
  cases a with
  | insert t => exact ⟨t, rfl, Option.mem_toList.mp hi⟩
  | _ => cases hi

theorem newborn_step (h : Kept s book) {a : Act} (hbirths : Births s s' a) {t i : Nat}
    (hi : (s'.caller t).newborn = some i) : i < s'.made ∧ i ∉ (book.note s a s').inserted := by
  cases hbirths with
  | keep hm hsame =>
      obtain ⟨hold, hne⟩ := hsame t i hi
      obtain ⟨hlt, hnew⟩ := h.newborn t i hold
      refine ⟨hm ▸ hlt, fun hin => ?_⟩
      rcases List.mem_append.mp hin with hin | hin
      · exact hnew hin
      · obtain ⟨u, ha, hu⟩ := newborn_of_inserted hin
        exact hne (h.apart u t i hu hold ▸ ha)
  | born u caller hm hcaller hnew hin =>
      have hnone : (book.note s a s').inserted = book.inserted := by simp [Book.note, hin]
      rw [hnone]
      rw [hcaller] at hi
      by_cases hu : t = u
      · subst hu
        rw [Function.update_self, hnew] at hi
        obtain rfl := Option.some.inj hi
        refine ⟨by omega, fun hin => ?_⟩
        have hlt := h.made _ hin
        omega
      · rw [Function.update_of_ne hu] at hi
        obtain ⟨hlt, hnot⟩ := h.newborn t i hi
        exact ⟨by omega, hnot⟩

theorem apart_step (h : Kept s book) {a : Act} (hbirths : Births s s' a) {t t' i : Nat}
    (hi : (s'.caller t).newborn = some i) (hi' : (s'.caller t').newborn = some i) : t = t' := by
  cases hbirths with
  | keep _ hsame => exact h.apart t t' i (hsame t i hi).1 (hsame t' i hi').1
  | born u caller _ hcaller hnew _ =>
      have hold : ∀ v, v ≠ u → (s'.caller v).newborn = some i →
          (s.caller v).newborn = some i ∧ i < s.made := by
        intro v hv hiv
        rw [hcaller, Function.update_of_ne hv] at hiv
        exact ⟨hiv, (h.newborn v i hiv).1⟩
      have hself : (s'.caller u).newborn = some i → i = s.made := by
        intro hiu
        rw [hcaller, Function.update_self, hnew] at hiu
        exact (Option.some.inj hiu).symm
      by_cases ht : t = u
      · subst ht
        by_contra hne
        have hlt := (hold t' (Ne.symm hne) hi').2
        have heq := hself hi
        omega
      · by_cases ht' : t' = u
        · subst ht'
          have hlt := (hold t ht hi).2
          have heq := hself hi'
          omega
        · exact h.apart t t' i (hold t ht hi).1 (hold t' ht' hi').1

theorem step (h : Kept s book) {a : Act} (hstep : s.step hp a = some s') : Kept s' (book.note s a s') := by
  have hshift := step_shifts hstep
  have hbirths := step_births hstep
  have hmade : s.made ≤ s'.made := by
    cases hbirths with
    | keep hmade => exact Nat.le_of_eq hmade.symm
    | born _ _ hmade => omega
  refine ⟨h.placed_step hshift, ?_, ?_, fun t i => h.newborn_step hbirths,
    fun t t' i => h.apart_step hbirths⟩
  · intro i hi
    apply List.mem_append_left
    rcases List.mem_append.mp hi with hi | hi
    · exact h.called i hi
    · exact h.called_step hshift i hi
  · intro i hi
    apply Nat.lt_of_lt_of_le _ hmade
    rcases List.mem_append.mp hi with hi | hi
    · exact h.made i hi
    · obtain ⟨t, _, ht⟩ := newborn_of_inserted hi
      exact (h.newborn t i ht).1

end Kept

-- A section that drops a connection from the pool evicts it, or clears the pool.
theorem removed_step {s s' : State ε δ} {a : Act} (hshift : Shift s s' a) {key : Key} {i : Nat}
    (hi : i ∈ s.pooled key) (hgone : i ∉ s'.pooled key) :
    (s.conns i).closed = true ∨ ∃ t, a = .clear t := by
  have hevict : ∀ (s' : State ε δ) found, s'.pooled key = s.pooled key → s'.conns = s.conns →
      i ∉ (s'.evictClosed found).lists (.pool key) → (s.conns i).closed = true := by
    intro s' found hpooled hconns hnot
    by_contra hopen
    refine hnot ?_
    change i ∈ (s'.evictClosed found).pooled key
    rw [State.evictClosed_pooled]
    split
    · rename_i hkey
      rw [← hkey, hpooled, hconns]
      exact List.mem_filter.mpr ⟨hi, by simp [hopen]⟩
    · rwa [hpooled]
  have hkept : s'.lists (.pool key) = s.lists (.pool key) →
      (s.conns i).closed = true ∨ ∃ t, a = .clear t :=
    fun he => absurd (show i ∈ s'.lists (.pool key) from he ▸ hi) hgone
  cases hshift with
  | keep hlists => exact hkept (congrFun hlists (.pool key))
  | @put t j found _ hlists =>
      refine absurd ?_ hgone
      change i ∈ s'.lists (.pool key)
      rw [hlists]
      by_cases hkey : Place.pool key = .pool found
      · rw [hkey, Function.update_self, ← hkey]
        exact List.mem_append_left _ hi
      · rw [Function.update_of_ne hkey]
        exact hi
  | take _ hlists | reap _ _ _ hlists => exact hkept (congrFun hlists (.pool key))
  | @evict t found _ hlists =>
      refine .inl (hevict s found rfl rfl fun hm => hgone ?_)
      change i ∈ s'.lists (.pool key)
      rwa [hlists]
  | @visit t found _ hlists =>
      refine .inl (hevict (s.sweep.setCaller t (.closing s.dead (.hand none))) found rfl rfl fun hm =>
        hgone ?_)
      change i ∈ s'.lists (.pool key)
      rwa [hlists]
  | clear _ _ _ _ => exact .inr ⟨_, rfl⟩

-- The list of a key has a connection that is marked closed.
def State.Evictable (s : State ε δ) (key : Key) : Prop := ∃ i ∈ s.pooled key, (s.conns i).closed = true

-- No section evicts a connection between the two locked sections of a
-- Session.close, and none inserts one between the second and the return.
def Undisturbed (k : State ε δ × Book) : Act → Prop
  | .existingConn _ key => k.1.Evictable key → ∀ t, k.2.stage t ≠ some .reaped
  | .scan t => ∀ key, k.1.caller t = .scanning key → k.1.Evictable key → ∀ u, k.2.stage u ≠ some .reaped
  | .insert _ => ∀ t, k.2.stage t ≠ some .cleared
  | _ => True

-- Behind the first section of a Session.close nothing drains, and behind the
-- second the pool is empty.
structure Quiet (s : State ε δ) (book : Book) : Prop where
  turn : ∀ t, (s.caller t).clears = true → book.stage t = some .reaped
  drained : ∀ t stage, book.stage t = some stage → s.draining = []
  cleared : ∀ t, book.stage t = some .cleared → ∀ key, s.pooled key = []

-- What a section leaves of the stages.
theorem stage_step (s : State ε δ) (stage : Nat → Option Stage) (a : Act) (t : Nat) (reached : Stage)
    (h : s.stageAfter stage a t = some reached) :
    stage t = some reached ∨ (a = .close t ∧ reached = .reaped) ∨ (a = .clear t ∧ reached = .cleared) := by
  have hupdate : ∀ u new, Function.update stage u (some new) t = some reached →
      stage t = some reached ∨ (u = t ∧ new = reached) := by
    intro u new hu
    by_cases ht : t = u
    · subst ht
      rw [Function.update_self] at hu
      exact .inr ⟨rfl, Option.some.inj hu⟩
    · rw [Function.update_of_ne ht] at hu
      exact .inl hu
  cases a with
  | close u =>
      rcases hupdate u .reaped h with hold | ⟨rfl, rfl⟩
      · exact .inl hold
      · exact .inr (.inl ⟨rfl, rfl⟩)
  | clear u =>
      rcases hupdate u .cleared h with hold | ⟨rfl, rfl⟩
      · exact .inl hold
      · exact .inr (.inr ⟨rfl, rfl⟩)
  | closeNext u =>
      have hstage : s.stageAfter stage (.closeNext u) = Function.update stage u none ∨
          s.stageAfter stage (.closeNext u) = stage := by
        dsimp only [State.stageAfter]
        split
        · exact .inl rfl
        · exact .inr rfl
      rcases hstage with he | he <;> rw [he] at h
      · by_cases ht : t = u
        · subst ht
          simp at h
        · rw [Function.update_of_ne ht] at h
          exact .inl h
      · exact .inl h
  | _ => exact .inl h

-- Only Session.close puts a caller in front of its second section.
theorem clears_step {hp : Hpack ε δ} {s s' : State ε δ} {a : Act} (stage : Nat → Option Stage)
    (hstep : s.step hp a = some s') {t : Nat} (h : (s'.caller t).clears = true) :
    a = .close t ∨ ((s.caller t).clears = true ∧ s.stageAfter stage a t = stage t) := by
  have hmove : ∀ u caller, s'.caller = Function.update s.caller u caller →
      (caller.clears = true →
        a = .close u ∨ ((s.caller u).clears = true ∧ s.stageAfter stage a u = stage u)) →
      (∀ v, v ≠ u → s.stageAfter stage a v = stage v) →
        a = .close t ∨ ((s.caller t).clears = true ∧ s.stageAfter stage a t = stage t) := by
    intro u caller hcaller hself hother
    rw [hcaller] at h
    by_cases ht : t = u
    · subst ht
      rw [Function.update_self] at h
      exact hself h
    · rw [Function.update_of_ne ht] at h
      exact .inr ⟨h, hother t ht⟩
  cases step_happens hstep with
  | @existingConn u key hc =>
      obtain ⟨picked, conn, _, _, hcaller, he, _⟩ := existingConn_picks s u key
      rw [he] at hmove
      exact hmove u _ (State.setCaller_update hcaller u _) (by simp [Caller.clears]) fun _ _ => rfl
  | @scan u key hc =>
      obtain ⟨picked, _, hcaller, hcase⟩ := scan_picks s u key
      have hupdate := State.setCaller_update hcaller u
      rcases hcase with ⟨_, _, _, he⟩ | ⟨_, he⟩ | ⟨_, _, he⟩ <;>
        exact hmove u _ (by rw [he]; exact hupdate _) (by simp [Caller.clears]) fun _ _ => rfl
  | @close u hc => exact hmove u _ rfl (fun _ => .inl rfl) fun v hv => Function.update_of_ne hv _ _
  | @closeOne u i todo next hc =>
      have hstage : s.stageAfter stage (.closeNext u) = stage := by simp [State.stageAfter, hc]
      refine hmove u _ rfl (fun hself => .inr ⟨?_, by rw [hstage]⟩) fun v _ => by rw [hstage]
      rw [hc]
      cases next <;> exact hself
  | @proceed u next hc =>
      rcases next with key | _ | ⟨_ | i⟩
      · exact hmove u _ rfl (by simp [Caller.clears]) fun v _ => by simp [State.stageAfter, hc]
      · exact hmove u _ rfl (fun _ => .inr ⟨by rw [hc]; rfl, by simp [State.stageAfter, hc]⟩)
          fun v _ => by simp [State.stageAfter, hc]
      · exact hmove u _ rfl (by simp [Caller.clears]) fun v hv => by simp [State.stageAfter, hc, hv]
      · exact hmove u _ rfl (by simp [Caller.clears]) fun v hv => by simp [State.stageAfter, hc, hv]
  | @clear u hc => exact hmove u _ rfl (by simp [Caller.clears]) fun v hv => Function.update_of_ne hv _ _
  | @connect u key outcome hc =>
      cases outcome <;> exact hmove u _ rfl (by simp [Caller.clears]) fun _ _ => rfl
  | @leave u key conn hc => cases conn <;> exact hmove u _ rfl (by simp [Caller.clears]) fun _ _ => rfl
  | @send u i args hc =>
      obtain ⟨caller, he, hcaller⟩ := send_eq hp s u i args
      refine hmove u caller (by rw [he]; rfl) ?_ fun _ _ => rfl
      rcases hcaller with rfl | ⟨sid, rfl, _⟩ <;> simp [Caller.clears]
  | frame _ _ | eof _ _ | readTimeout _ _ => exact .inr ⟨h, rfl⟩
  | getConn _ _ | wake _ | acquire _ | insert _ | abandon _ | done _ _ | expire _ | finish _ | drop _ =>
      exact hmove _ _ rfl (by simp [Caller.clears]) fun _ _ => rfl

namespace Quiet

variable {hp : Hpack ε δ} {s s' : State ε δ} {book : Book}

theorem start (hp : Hpack ε δ) (maxConns : Nat) : Quiet (State.start hp maxConns) {} := by
  refine ⟨?_, ?_, ?_⟩
  · intro t h
    cases h
  · intro t stage h
    cases h
  · intro t h
    cases h

-- Nothing starts to drain while some Session.close is under way.
theorem drained_step (h : Quiet s book) {a : Act} (hok : Undisturbed (s, book) a) (hshift : Shift s s' a)
    {t : Nat} {stage : Stage} (ht : book.stage t = some stage) : s'.draining = [] := by
  have hdrained : s.draining = [] := h.drained t stage ht
  have hnone : ∀ key, (s.Evictable key → ∀ u, book.stage u ≠ some .reaped) →
      ((s.pooled key).filter fun i => (s.conns i).closed) = [] := by
    intro key hkey
    cases stage with
    | reaped =>
        refine List.filter_eq_nil_iff.mpr fun i hi hclosed => ?_
        exact hkey ⟨i, hi, hclosed⟩ t ht
    | cleared => rw [h.cleared t ht key, List.filter_nil]
  cases hshift with
  | keep hlists => exact (congrFun hlists .draining).trans hdrained
  | put _ hlists | take _ hlists => exact (congrFun hlists .draining).trans hdrained
  | reap _ _ _ hlists => exact congrFun hlists .draining
  | @evict u key hc hlists =>
      refine (congrFun hlists .draining).trans ?_
      change s.draining ++ _ = []
      rw [hdrained, hnone key (hok key hc)]
      rfl
  | @visit u key hc hlists =>
      refine (congrFun hlists .draining).trans ?_
      change (s.draining.filter fun i => (s.conns i).reading) ++ _ = []
      rw [hdrained]
      exact hnone key hok
  | clear _ _ hdraining => exact hdraining.trans hdrained

theorem cleared_step (h : Quiet s book) {a : Act} (hok : Undisturbed (s, book) a) (hshift : Shift s s' a)
    {t : Nat} (ht : book.stage t = some .cleared) (key : Key) : s'.pooled key = [] := by
  have hpool : ∀ other, s.lists (.pool other) = [] := h.cleared t ht
  have hevict : ∀ (s : State ε δ) found, (∀ other, s.lists (.pool other) = []) →
      (s.evictClosed found).lists (.pool key) = [] := by
    intro s found hs
    rw [evictClosed_lists, Function.update_of_ne (by simp), hs found]
    by_cases hkey : Place.pool key = .pool found
    · rw [hkey, Function.update_self]
      rfl
    · rw [Function.update_of_ne hkey]
      exact hs key
  cases hshift with
  | keep hlists => exact (congrFun hlists (.pool key)).trans (hpool key)
  | put _ _ => exact absurd ht (hok t)
  | take _ hlists | reap _ _ _ hlists => exact (congrFun hlists (.pool key)).trans (hpool key)
  | evict _ hlists => exact (congrFun hlists (.pool key)).trans (hevict s _ hpool)
  | visit _ hlists => exact (congrFun hlists (.pool key)).trans (hevict _ _ hpool)
  | clear _ hempty => exact hempty key

theorem step (h : Quiet s book) {a : Act} (hok : Undisturbed (s, book) a) (hstep : s.step hp a = some s') :
    Quiet s' (book.note s a s') := by
  have hshift := step_shifts hstep
  have hclear : ∀ t, a = .clear t → book.stage t = some .reaped := by
    rintro t rfl
    cases step_happens hstep with
    | clear hc => exact h.turn t (by rw [hc]; rfl)
  refine ⟨?_, ?_, ?_⟩
  · intro t hclears
    rcases clears_step book.stage hstep hclears with rfl | ⟨hold, hsame⟩
    · exact Function.update_self ..
    · exact hsame.trans (h.turn t hold)
  · intro t stage hstage
    rcases stage_step s book.stage a t stage hstage with hold | ⟨rfl, _⟩ | ⟨ha, _⟩
    · exact h.drained_step hok hshift hold
    · cases step_happens hstep with
      | close _ => rfl
    · exact h.drained_step hok hshift (hclear t ha)
  · intro t hstage key
    rcases stage_step s book.stage a t .cleared hstage with hold | ⟨_, hne⟩ | ⟨rfl, _⟩
    · exact h.cleared_step hok hshift hold key
    · cases hne
    · cases step_happens hstep with
      | clear _ => rfl

end Quiet

-- A section that is no part of another call than Session.close.
def onlyClose : Act → Bool
  | .close _ | .closeNext _ | .clear _ => true
  | _ => false

-- Calls of Session.close that come behind everything else are not disturbed.
theorem undisturbed_alone {hp : Hpack ε δ} {s s' : State ε δ} {book book' : Book} {acts closes : List Act}
    (hstage : ∀ t, book.stage t = none) (hacts : ∀ a ∈ acts, noClose a) (hcloses : ∀ a ∈ closes, onlyClose a)
    (hrun : Transition.run (Transition.noting (State.step hp) Book.note) (s, book) acts = some (s', book')) :
    Transition.Meets (Transition.noting (State.step hp) Book.note) Undisturbed (s, book)
      (acts ++ closes) := by
  refine .append (.of_invariant (fun k => ∀ t, k.2.stage t = none) ?_ hstage) hrun (.of_forall ?_)
  · rintro a ha ⟨s, book⟩ hnone
    have hno := hacts a ha
    have hfree : ∀ t, book.stage t = none := hnone
    refine ⟨?_, ?_⟩
    · cases a with
      | existingConn _ _ | scan _ | insert _ => simp [Undisturbed, hfree]
      | _ => trivial
    · rintro ⟨next, book'⟩ hs t
      obtain ⟨_, rfl⟩ := Transition.noting_eq_some hs
      by_contra hsome
      obtain ⟨reached, hreached⟩ := Option.ne_none_iff_exists'.mp hsome
      rcases stage_step s book.stage a t reached hreached with hold | ⟨rfl, _⟩ | ⟨rfl, _⟩
      · rw [hfree t] at hold
        cases hold
      · cases hno
      · cases hno
  · intro a ha k
    have honly := hcloses a ha
    cases a with
    | close _ | closeNext _ | clear _ => trivial
    | _ => cases honly

-- Over every run of a session, whatever the order of its sections: a connection
-- that was inserted and not closed is in one list, once; a section that drops
-- one from the pool found it marked closed, or is that of Session.close; and if
-- no eviction came between the two sections of a Session.close and no insertion
-- between the second and the return, then once it has returned, and no other
-- call runs, close() has been called on all connections.
theorem all_closed_when (hp : Hpack ε δ) (maxConns : Nat) (acts : List Act) (s : State ε δ) (book : Book)
    (hrun : Transition.run (Transition.noting (State.step hp) Book.note) (.start hp maxConns, {}) acts =
      some (s, book)) :
    (∀ i ∈ book.inserted, i ∉ book.called →
      ∃ p, (s.lists p).count i = 1 ∧ ∀ q, q ≠ p → i ∉ s.lists q) ∧
    (∀ p, ∀ i ∈ s.lists p, i ∈ book.inserted ∧ i ∉ book.called) ∧
    (∀ a s' key, s.step hp a = some s' → ∀ i ∈ s.pooled key, i ∉ s'.pooled key →
      (s.conns i).closed = true ∨ ∃ t, a = .clear t) ∧
    (Transition.Meets (Transition.noting (State.step hp) Book.note) Undisturbed
        (.start hp maxConns, {}) acts →
      ∀ t s' book', Transition.noting (State.step hp) Book.note (s, book) (.closeNext t) = some (s', book') →
        book.stage t = some .cleared → book'.stage t = none → (∀ u, s'.caller u = .idle) →
          ∀ i ∈ book'.inserted, i ∈ book'.called) := by
  have hkept : Kept s book := Transition.invariant_always (fun k : State ε δ × Book => Kept k.1 k.2)
    (by
      rintro ⟨s, book⟩ a ⟨s', book'⟩ hk hs
      obtain ⟨hstep, rfl⟩ := Transition.noting_eq_some hs
      exact hk.step hstep) (.start hp maxConns) hrun
  refine ⟨fun i hi hc => hkept.placed.once ⟨hi, hc⟩, fun p i hi => hkept.placed.live_of_mem hi, ?_, ?_⟩
  · intro a s' key hstep i hi hgone
    exact removed_step (step_shifts hstep) hi hgone
  · intro hmeets t s' book' hlast hstage _ hidle i hi
    have hquiet : Quiet s book := Transition.invariant (fun k : State ε δ × Book => Quiet k.1 k.2)
      (by
        rintro ⟨s, book⟩ a ⟨s', book'⟩ hk hok hs
        obtain ⟨hstep, rfl⟩ := Transition.noting_eq_some hs
        exact hk.step hok hstep) (.start hp maxConns) hmeets hrun
    obtain ⟨hstep, rfl⟩ := Transition.noting_eq_some hlast
    have hok : Undisturbed (s, book) (.closeNext t) := trivial
    by_contra hc
    obtain ⟨p, hcount, _⟩ := (hkept.step hstep).placed.once ⟨hi, hc⟩
    have hmem : i ∈ s'.lists p := List.count_pos_iff.mp (by omega)
    cases p with
    | pool key =>
        have hempty : s'.pooled key = [] := hquiet.cleared_step hok (step_shifts hstep) hstage key
        rw [show s'.lists (.pool key) = [] from hempty] at hmem
        cases hmem
    | draining =>
        have hempty : s'.draining = [] := hquiet.drained_step hok (step_shifts hstep) hstage
        rw [show s'.lists .draining = [] from hempty] at hmem
        cases hmem
    | todo u =>
        rw [show s'.lists (.todo u) = [] by simp [State.lists, hidle, Caller.todo]] at hmem
        cases hmem

-- A request, and a Session.close behind it.
theorem all_closed_when_alone :
    ∃ s book s' book', Transition.run (Transition.noting (State.step recorder) Book.note)
        (.start recorder 6, {}) (firstRequest ++ [.eof 0, .done 0, .pop 0] ++
          [.close 0, .closeNext 0, .clear 0, .closeNext 0]) = some (s, book) ∧
      Transition.noting (State.step recorder) Book.note (s, book) (.closeNext 0) = some (s', book') ∧
      0 ∈ book'.inserted ∧ 0 ∈ book'.called :=
  ⟨_, _, _, _, rfl, rfl, by decide, (all_closed_when recorder 6
    (firstRequest ++ [.eof 0, .done 0, .pop 0] ++
      [.close 0, .closeNext 0, .clear 0, .closeNext 0]) _ _ rfl).2.2.2
    (undisturbed_alone (fun _ => rfl) (by decide) (by decide) rfl) 0 _ _ rfl rfl rfl
    (fun u => by match u with | 0 => rfl | u + 1 => rfl) 0 (by decide)⟩

-- The reader of the connection ends, a Session.close takes what drains, and a
-- call of `_existing_conn` evicts the connection before the pool is cleared.
theorem eviction_escapes_close :
    ∃ s book s' book', Transition.run (Transition.noting (State.step recorder) Book.note)
        (.start recorder 6, {}) (firstRequest ++ [.eof 0, .done 0, .pop 0, .close 1, .closeNext 1,
          .existingConn 0 originKey, .closeNext 0, .clear 1]) = some (s, book) ∧
      Transition.noting (State.step recorder) Book.note (s, book) (.closeNext 1) = some (s', book') ∧
      book.stage 1 = some .cleared ∧ book'.stage 1 = none ∧ (∀ u, s'.caller u = .idle) ∧
      0 ∈ book'.inserted ∧ 0 ∉ book'.called ∧ (s'.conns 0).closing = false :=
  ⟨_, _, _, _, rfl, rfl, rfl, rfl, fun u => by match u with | 0 => rfl | 1 => rfl | u + 2 => rfl,
    by decide, by decide, by decide⟩

end NeverFox.Pool
