import Mathlib.Algebra.Order.Ring.Nat

namespace Transition

variable {σ τ α : Type*}

-- Execute a list of actions. A step that returns `none` is not enabled, and
-- then neither is the rest of the list.
def run (step : σ → α → Option σ) : σ → List α → Option σ
  | s, [] => some s
  | s, a :: as => (step s a).bind fun s' => run step s' as

-- Every step of the run starts in a state that meets `ok` for its action.
def Meets (step : σ → α → Option σ) (ok : σ → α → Prop) : σ → List α → Prop
  | _, [] => True
  | s, a :: as => ok s a ∧ match step s a with
      | none => True
      | some s' => Meets step ok s' as

instance Meets.decidable (step : σ → α → Option σ) (ok : σ → α → Prop)
    [hd : ∀ s a, Decidable (ok s a)] : ∀ s as, Decidable (Meets step ok s as)
  | _, [] => isTrue trivial
  | s, a :: as => @instDecidableAnd _ _ (hd s a) (match step s a with
      | none => isTrue trivial
      | some s' => Meets.decidable step ok s' as)

variable {step : σ → α → Option σ} {ok : σ → α → Prop}

theorem run_cons_eq_some {s s' : σ} {a : α} {as : List α} :
    run step s (a :: as) = some s' ↔ ∃ next, step s a = some next ∧ run step next as = some s' := by
  simp only [run, Option.bind_eq_some_iff]

theorem run_append {s : σ} (as bs : List α) :
    run step s (as ++ bs) = (run step s as).bind fun s' => run step s' bs := by
  induction as generalizing s with
  | nil => rfl
  | cons a as ih =>
      simp only [List.cons_append, run, Option.bind_assoc]
      congr 1
      funext next
      exact ih

theorem Meets.head {s : σ} {a : α} {as : List α} (h : Meets step ok s (a :: as)) : ok s a := h.1

theorem Meets.tail {s next : σ} {a : α} {as : List α} (h : Meets step ok s (a :: as))
    (hs : step s a = some next) : Meets step ok next as := by
  have ht := h.2
  simpa only [hs] using ht

-- A run that meets the condition meets it in every prefix.
theorem Meets.take {s : σ} {as bs : List α} (h : Meets step ok s (as ++ bs)) :
    Meets step ok s as := by
  induction as generalizing s with
  | nil => trivial
  | cons a as ih =>
      refine ⟨h.1, ?_⟩
      cases hs : step s a with
      | none => trivial
      | some next => exact ih (Meets.tail h hs)

-- And behind every prefix.
theorem Meets.drop {s s' : σ} {as bs : List α} (h : Meets step ok s (as ++ bs))
    (hrun : run step s as = some s') : Meets step ok s' bs := by
  induction as generalizing s with
  | nil => cases hrun; exact h
  | cons a as ih =>
      obtain ⟨next, hs, hr⟩ := run_cons_eq_some.mp hrun
      exact ih (h.tail hs) hr

theorem Meets.append {s s' : σ} {as bs : List α} (h : Meets step ok s as) (hrun : run step s as = some s')
    (h' : Meets step ok s' bs) : Meets step ok s (as ++ bs) := by
  induction as generalizing s with
  | nil => cases hrun; exact h'
  | cons a as ih =>
      obtain ⟨next, hs, hr⟩ := run_cons_eq_some.mp hrun
      refine ⟨h.head, ?_⟩
      simp only [hs]
      exact ih (h.tail hs) hr

-- What an invariant of the actions of a run implies, all its steps meet.
theorem Meets.of_invariant (inv : σ → Prop) {s : σ} {as : List α}
    (h : ∀ a ∈ as, ∀ s, inv s → ok s a ∧ ∀ next, step s a = some next → inv next) (hs : inv s) :
    Meets step ok s as := by
  induction as generalizing s with
  | nil => trivial
  | cons a as ih =>
      obtain ⟨hok, hnext⟩ := h a List.mem_cons_self s hs
      refine ⟨hok, ?_⟩
      cases hstep : step s a with
      | none => trivial
      | some next => exact ih (fun b hb => h b (List.mem_cons_of_mem a hb)) (hnext next hstep)

theorem Meets.and {ok' : σ → α → Prop} {s : σ} {as : List α} (h : Meets step ok s as)
    (h' : Meets step ok' s as) : Meets step (fun s a => ok s a ∧ ok' s a) s as := by
  induction as generalizing s with
  | nil => trivial
  | cons a as ih =>
      refine ⟨⟨h.1, h'.1⟩, ?_⟩
      cases hs : step s a with
      | none => trivial
      | some next => exact ih (h.tail hs) (h'.tail hs)

theorem Meets.imp {ok' : σ → α → Prop} (himp : ∀ s a, ok s a → ok' s a) {s : σ} {as : List α}
    (h : Meets step ok s as) : Meets step ok' s as := by
  induction as generalizing s with
  | nil => trivial
  | cons a as ih =>
      refine ⟨himp s a h.head, ?_⟩
      cases hs : step s a with
      | none => trivial
      | some next => exact ih (h.tail hs)

-- The simulation rule: a relation to an abstract machine that every step
-- meeting the condition preserves holds at the end of every such run.
theorem simulation (spec : τ → α → τ) (rel : σ → τ → Prop)
    (hstep : ∀ s t a next, rel s t → ok s a → step s a = some next → rel next (spec t a))
    {s s' : σ} {t : τ} {as : List α} (hrel : rel s t) (hmeets : Meets step ok s as)
    (hrun : run step s as = some s') : rel s' (as.foldl spec t) := by
  induction as generalizing s t with
  | nil => cases hrun; exact hrel
  | cons a as ih =>
      obtain ⟨next, hs, hr⟩ := run_cons_eq_some.mp hrun
      exact ih (hstep s t a next hrel hmeets.head hs) (hmeets.tail hs) hr

-- The invariant rule under a condition on the steps taken.
theorem invariant (inv : σ → Prop)
    (hstep : ∀ s a next, inv s → ok s a → step s a = some next → inv next)
    {s s' : σ} {as : List α} (hinv : inv s) (hmeets : Meets step ok s as)
    (hrun : run step s as = some s') : inv s' :=
  simulation (fun (_ : Unit) _ => ()) (fun s _ => inv s) (fun s _ a next => hstep s a next)
    (t := ()) hinv hmeets hrun

theorem Meets.of_forall {s : σ} {as : List α} (h : ∀ a ∈ as, ∀ s, ok s a) : Meets step ok s as := by
  induction as generalizing s with
  | nil => trivial
  | cons a as ih =>
      refine ⟨h a List.mem_cons_self s, ?_⟩
      cases step s a with
      | none => trivial
      | some next => exact ih fun b hb => h b (List.mem_cons_of_mem a hb)

theorem meets_true {s : σ} (as : List α) : Meets step (fun _ _ => True) s as :=
  .of_forall fun _ _ _ => trivial

-- An invariant of every step is an invariant of every run.
theorem invariant_always (inv : σ → Prop)
    (hstep : ∀ s a next, inv s → step s a = some next → inv next)
    {s s' : σ} {as : List α} (hinv : inv s) (hrun : run step s as = some s') : inv s' :=
  invariant inv (fun s a next hi (_ : True) hs => hstep s a next hi hs) hinv (meets_true as) hrun

-- A property that a step keeps exactly when it meets the condition holds all
-- along a run exactly when every step does.
theorem always_iff (aux inv : σ → Prop)
    (hstep : ∀ s a next, aux s → inv s → step s a = some next → aux next ∧ (inv next ↔ ok s a))
    {s s' : σ} {as : List α} (haux : aux s) (hinv : inv s) (hrun : run step s as = some s') :
    (∀ pre mid, pre <+: as → run step s pre = some mid → inv mid) ↔ Meets step ok s as := by
  induction as generalizing s with
  | nil =>
      refine ⟨fun _ => trivial, fun _ pre mid hpre hmid => ?_⟩
      obtain rfl := List.prefix_nil.mp hpre
      cases hmid
      exact hinv
  | cons a as ih =>
      obtain ⟨next, hs, hr⟩ := run_cons_eq_some.mp hrun
      obtain ⟨hnext, hiff⟩ := hstep s a next haux hinv hs
      have hmeets : Meets step ok s (a :: as) ↔ ok s a ∧ Meets step ok next as := by
        simp only [Meets, hs]
      rw [hmeets, ← hiff]
      constructor
      · intro h
        have hi := h [a] next (by simp) (by simp [run, hs])
        refine ⟨hi, (ih hnext hi hr).mp fun pre mid hpre hmid => ?_⟩
        exact h (a :: pre) mid (List.cons_prefix_cons.mpr ⟨rfl, hpre⟩)
          (run_cons_eq_some.mpr ⟨next, hs, hmid⟩)
      · rintro ⟨hi, hrest⟩ pre mid hpre hmid
        cases pre with
        | nil => cases hmid; exact hinv
        | cons b pre =>
            obtain ⟨rfl, hrest'⟩ := List.cons_prefix_cons.mp hpre
            obtain ⟨next', hs', hmid'⟩ := run_cons_eq_some.mp hmid
            obtain rfl := Option.some.inj (hs.symm.trans hs')
            exact (ih hnext hi hr).mpr hrest pre mid hrest' hmid'

-- A property of histories, in runs whose steps are all allowed: a step has it
-- exactly when the state before it has and the step meets the condition. It
-- holds at the end of a run exactly when it held at the start and every step
-- met the condition.
theorem end_iff_of_meets {allowed : σ → α → Prop} (aux inv : σ → Prop)
    (hstep : ∀ s a next, aux s → allowed s a → step s a = some next →
      aux next ∧ (inv next ↔ inv s ∧ ok s a))
    {s s' : σ} {as : List α} (haux : aux s) (hallowed : Meets step allowed s as)
    (hrun : run step s as = some s') : inv s' ↔ inv s ∧ Meets step ok s as := by
  induction as generalizing s with
  | nil =>
      cases hrun
      exact (and_iff_left trivial).symm
  | cons a as ih =>
      obtain ⟨next, hs, hr⟩ := run_cons_eq_some.mp hrun
      obtain ⟨hnext, hiff⟩ := hstep s a next haux hallowed.head hs
      have hmeets : Meets step ok s (a :: as) ↔ ok s a ∧ Meets step ok next as := by
        simp only [Meets, hs]
      rw [ih hnext (hallowed.tail hs) hr, hiff, hmeets, and_assoc]

theorem end_iff (aux inv : σ → Prop)
    (hstep : ∀ s a next, aux s → step s a = some next → aux next ∧ (inv next ↔ inv s ∧ ok s a))
    {s s' : σ} {as : List α} (haux : aux s) (hrun : run step s as = some s') :
    inv s' ↔ inv s ∧ Meets step ok s as :=
  end_iff_of_meets aux inv (fun s a next ha (_ : True) hs => hstep s a next ha hs) haux (meets_true as) hrun

-- The forward rule: where every step that a specification takes is one that
-- the machine can take too, the machine follows every run of the specification.
theorem forward {β : Type*} {spec : τ → β → Option τ} (act : β → α) (ok : β → Prop)
    (rel : σ → τ → Prop)
    (hstep : ∀ s t b t', rel s t → ok b → spec t b = some t' →
      ∃ s', step s (act b) = some s' ∧ rel s' t')
    {s : σ} {t t' : τ} {bs : List β} (hrel : rel s t) (hok : ∀ b ∈ bs, ok b)
    (hrun : run spec t bs = some t') : ∃ s', run step s (bs.map act) = some s' ∧ rel s' t' := by
  induction bs generalizing s t with
  | nil =>
      cases hrun
      exact ⟨s, rfl, hrel⟩
  | cons b bs ih =>
      obtain ⟨mid, hs, hr⟩ := run_cons_eq_some.mp hrun
      obtain ⟨next, hnext, hrel'⟩ := hstep s t b mid hrel (hok b List.mem_cons_self) hs
      obtain ⟨s', hs', hend⟩ := ih hrel' (fun b' hb => hok b' (List.mem_cons_of_mem b hb)) hr
      exact ⟨s', run_cons_eq_some.mpr ⟨next, hnext, hs'⟩, hend⟩

-- What no step brings about held from the start if it holds at the end.
theorem backward (alive : σ → Prop)
    (halive : ∀ s a next, step s a = some next → alive next → alive s)
    {s s' : σ} {as : List α} (hrun : run step s as = some s') (hend : alive s') : alive s := by
  induction as generalizing s with
  | nil => cases hrun; exact hend
  | cons a as ih =>
      obtain ⟨next, hs, hr⟩ := run_cons_eq_some.mp hrun
      exact halive s a next hs (ih hr)

-- A quantity that no step raises by more than is due for its action has been
-- raised by all that was due exactly when every step met the condition for it.
-- `alive` marks the states that count: no step revives a state that is not.
theorem account (quantity : σ → Nat) (due : α → Nat) (inv alive : σ → Prop)
    (halive : ∀ s a next, step s a = some next → alive next → alive s)
    (hstep : ∀ s a next, inv s → step s a = some next → alive next →
      inv next ∧ quantity next ≤ quantity s + due a ∧ (quantity next = quantity s + due a ↔ ok s a))
    {s s' : σ} {as : List α} (hinv : inv s) (hrun : run step s as = some s') (hend : alive s') :
    quantity s' ≤ quantity s + (as.map due).sum ∧
      (quantity s' = quantity s + (as.map due).sum ↔ Meets step ok s as) := by
  induction as generalizing s with
  | nil =>
      cases hrun
      simp [Meets]
  | cons a as ih =>
      obtain ⟨next, hs, hr⟩ := run_cons_eq_some.mp hrun
      have hnext := backward alive halive hr hend
      obtain ⟨hi, hle, heq⟩ := hstep s a next hinv hs hnext
      obtain ⟨hle', heq'⟩ := ih hi hr
      constructor
      · simp only [List.map_cons, List.sum_cons]
        omega
      · simp only [List.map_cons, List.sum_cons, Meets, hs, ← heq, ← heq']
        omega

-- The machine with notes of its steps beside its state.
def noting (step : σ → α → Option σ) (note : τ → σ → α → σ → τ) (s : σ × τ) (a : α) :
    Option (σ × τ) :=
  (step s.1 a).map fun next => (next, note s.2 s.1 a next)

-- Taking notes changes nothing in a run.
theorem run_noting (note : τ → σ → α → σ → τ) (s : σ) (t : τ) (as : List α) :
    (run (noting step note) (s, t) as).map Prod.fst = run step s as := by
  induction as generalizing s t with
  | nil => rfl
  | cons a as ih =>
      simp only [run, noting]
      cases step s a with
      | none => rfl
      | some next => exact ih next _

theorem exists_noting (note : τ → σ → α → σ → τ) {s s' : σ} {as : List α}
    (hrun : run step s as = some s') (t : τ) : ∃ t', run (noting step note) (s, t) as = some (s', t') := by
  have h : (run (noting step note) (s, t) as).map Prod.fst = run step s as := run_noting note s t as
  rw [hrun] at h
  obtain ⟨⟨_, t'⟩, ht, rfl⟩ := Option.map_eq_some_iff.mp h
  exact ⟨t', ht⟩

-- A condition on the steps alone is met with notes just as without.
theorem Meets.noting (note : τ → σ → α → σ → τ) {s : σ} {as : List α} (h : Meets step ok s as) (t : τ) :
    Meets (noting step note) (fun p a => ok p.1 a) (s, t) as := by
  induction as generalizing s t with
  | nil => trivial
  | cons a as ih =>
      refine ⟨h.head, ?_⟩
      simp only [Transition.noting]
      cases hs : step s a with
      | none => trivial
      | some next => exact ih (h.tail hs) _

theorem Meets.of_noting (note : τ → σ → α → σ → τ) {s : σ} {t : τ} {as : List α}
    (h : Meets (Transition.noting step note) (fun p a => ok p.1 a) (s, t) as) : Meets step ok s as := by
  induction as generalizing s t with
  | nil => trivial
  | cons a as ih =>
      refine ⟨h.head, ?_⟩
      cases hs : step s a with
      | none => trivial
      | some next =>
          have hnoted : Transition.noting step note (s, t) a = some (next, note t s a next) := by
            rw [Transition.noting, hs]
            rfl
          exact ih (h.tail hnoted)

theorem noting_eq_some {note : τ → σ → α → σ → τ} {s s' : σ} {t t' : τ} {a : α}
    (h : noting step note (s, t) a = some (s', t')) : step s a = some s' ∧ t' = note t s a s' := by
  obtain ⟨next, hs, he⟩ := Option.map_eq_some_iff.mp h
  obtain ⟨rfl, rfl⟩ := Prod.mk.inj he
  exact ⟨hs, rfl⟩

-- What every step of a loop that can fail keeps, the loop keeps if it ends.
theorem foldlM_invariant {ε : Type*} {step : σ → α → Except ε σ} (inv : σ → Prop)
    (hstep : ∀ s a s', inv s → step s a = .ok s' → inv s') {as : List α} {s s' : σ} (hs : inv s)
    (h : as.foldlM step s = .ok s') : inv s' := by
  induction as generalizing s with
  | nil =>
      obtain rfl := Except.ok.inj h
      exact hs
  | cons a as ih =>
      rw [List.foldlM_cons] at h
      cases hnext : step s a with
      | error exc =>
          rw [hnext] at h
          cases h
      | ok next =>
          rw [hnext] at h
          exact ih (hstep s a next hs hnext) h

end Transition
