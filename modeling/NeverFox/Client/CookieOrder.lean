import NeverFox.Client.Deeds
import NeverFox.Lib.Insertion

namespace NeverFox.Client

namespace CookieJar

def set (jar : CookieJar) (name value domain path : String) : CookieJar :=
  let domain := PyText.lower (lstripDots domain)
  Dict.set jar (domain, path, name) ⟨name, value, domain, path, false, none⟩

def clear (_ : CookieJar) : CookieJar := .empty

end CookieJar

-- What changes a jar; a deletion is a response's, and so are the deletions of
-- expired cookies a `headerFor`'s.
inductive JarUse
  | set (name value domain path : String)
  | setFromResponse (host : String) (now : Rat) (values : List String)
  | clear
  | headerFor (host path : String) (secure : Bool) (now : Rat)

def CookieJar.use (load : String → Option (List Morsel)) (jar : CookieJar) : JarUse → CookieJar
  | .set name value domain path => jar.set name value domain path
  | .setFromResponse host now values => (setFromResponse load jar host now values).1
  | .clear => jar.clear
  | .headerFor host path secure now => (headerFor jar host path secure now).2

-- The same for a ledger of the cookies set, with the times since which their
-- keys are present.
def noteDeed (l : Ledger CookieKey Cookie) : Deed → Ledger CookieKey Cookie
  | .ignore | .refuse => l
  | .delete key => l.drop key
  | .store c => l.put c.key c

def noteUse (load : String → Option (List Morsel)) (l : Ledger CookieKey Cookie) :
    JarUse → Ledger CookieKey Cookie
  | .set name value domain path =>
      let c := ⟨name, value, PyText.lower (lstripDots domain), path, false, none⟩
      l.put c.key c
  | .setFromResponse host now values =>
      (executed ((received load values).map (deedOf (PyText.lower host) now))).foldl noteDeed l
  | .clear => l.clear
  | .headerFor _ _ _ now => l.retain fun _ c => !CookieJar.expired now c

-- Every cookie is in the jar under its own key.
def Keyed (jar : CookieJar) : Prop := ∀ entry ∈ jar.entries, entry.1 = entry.2.key

theorem keyed_set {jar : CookieJar} (h : Keyed jar) (c : Cookie) : Keyed (Dict.set jar c.key c) :=
  Dict.forall_set h rfl

theorem keyed_erase {jar : CookieJar} (h : Keyed jar) (key : CookieKey) : Keyed (Dict.erase jar key) := by
  intro entry he
  exact h entry (List.mem_filter.mp he).1

theorem keys_eq {jar : CookieJar} (h : Keyed jar) : Dict.keys jar = (Dict.values jar).map Cookie.key := by
  rw [Dict.values, List.map_map]
  exact List.map_congr_left h

-- Dropping one cookie if it has expired, as `headerFor` does for each.
def dropExpired (now : Rat) (jar : CookieJar) (key : CookieKey) : CookieJar :=
  match Dict.get? jar key with
  | some c => if CookieJar.expired now c then Dict.erase jar key else jar
  | none => jar

theorem headerFor_jar (jar : CookieJar) (host path : String) (secure : Bool) (now : Rat) :
    (CookieJar.headerFor jar host path secure now).2 = (Dict.keys jar).foldl (dropExpired now) jar := rfl

theorem dropExpired_cases (now : Rat) (jar : CookieJar) (key : CookieKey) :
    dropExpired now jar key = jar ∨ dropExpired now jar key = Dict.erase jar key := by
  unfold dropExpired
  split
  · split
    · exact .inr rfl
    · exact .inl rfl
  · exact .inl rfl

theorem get?_dropExpired (now : Rat) (jar : CookieJar) (key other : CookieKey) :
    Dict.get? (dropExpired now jar key) other = if other = key then
      (Dict.get? jar other).filter fun c => !CookieJar.expired now c else Dict.get? jar other := by
  unfold dropExpired
  by_cases ho : other = key
  · rw [if_pos ho, ho]
    cases hget : Dict.get? jar key with
    | none => simp [hget]
    | some c => cases hexp : CookieJar.expired now c <;> simp [hget, hexp, Dict.get?_erase, Option.filter]
  · rw [if_neg ho]
    split
    · split
      · rw [Dict.get?_erase, if_neg ho]
      · rfl
    · rfl

theorem get?_foldl_dropExpired (now : Rat) (keys : List CookieKey) (jar : CookieJar) (key : CookieKey) :
    Dict.get? (keys.foldl (dropExpired now) jar) key = if key ∈ keys then
      (Dict.get? jar key).filter fun c => !CookieJar.expired now c else Dict.get? jar key := by
  induction keys generalizing jar with
  | nil => rfl
  | cons other keys ih =>
      rw [List.foldl_cons, ih, get?_dropExpired]
      by_cases ho : key = other
      · simp only [ho, ↓reduceIte, List.mem_cons, true_or]
        cases Dict.get? jar other with
        | none => simp
        | some c => cases hexp : CookieJar.expired now c <;> simp [Option.filter, hexp]
      · simp [ho]

theorem foldl_dropExpired_sublist (now : Rat) (keys : List CookieKey) (jar : CookieJar) :
    (keys.foldl (dropExpired now) jar).entries.Sublist jar.entries := by
  induction keys generalizing jar with
  | nil => exact .refl _
  | cons key keys ih =>
      rw [List.foldl_cons]
      apply (ih _).trans
      rcases dropExpired_cases now jar key with h | h
      · rw [h]
      · rw [h]
        exact List.filter_sublist

-- The jar is in step with the ledger.
structure InStep (l : Ledger CookieKey Cookie) (jar : CookieJar) : Prop where
  records : l.Records jar
  keyed : Keyed jar

theorem inStep_deed {l : Ledger CookieKey Cookie} {jar : CookieJar} (h : InStep l jar) (deed : Deed) :
    InStep (noteDeed l deed) (deed.apply jar) := by
  cases deed with
  | ignore => exact h
  | refuse => exact h
  | delete key => exact ⟨h.records.drop key, keyed_erase h.keyed key⟩
  | store c => exact ⟨h.records.put c.key c, keyed_set h.keyed c⟩

theorem inStep_deeds {l : Ledger CookieKey Cookie} {jar : CookieJar} (h : InStep l jar)
    (deeds : List Deed) : InStep (deeds.foldl noteDeed l) (deeds.foldl Deed.apply jar) := by
  induction deeds generalizing l jar with
  | nil => exact h
  | cons deed deeds ih => exact ih (inStep_deed h deed)

theorem inStep_headerFor {l : Ledger CookieKey Cookie} {jar : CookieJar} (h : InStep l jar)
    (host path : String) (secure : Bool) (now : Rat) :
    InStep (l.retain fun _ c => !CookieJar.expired now c)
      (CookieJar.headerFor jar host path secure now).2 := by
  rw [headerFor_jar]
  have hsub := foldl_dropExpired_sublist now (Dict.keys jar) jar
  refine ⟨h.records.retain _ (hsub.map Prod.fst) ?_, fun entry he => h.keyed entry (hsub.subset he)⟩
  intro key
  rw [get?_foldl_dropExpired]
  by_cases hk : key ∈ Dict.keys jar
  · rw [if_pos hk]
  · have hnone : Dict.get? jar key = none := by
      by_contra hsome
      obtain ⟨c, hc⟩ := Option.ne_none_iff_exists'.mp hsome
      exact hk (Dict.mem_keys_iff.mpr ⟨c, hc⟩)
    rw [if_neg hk, hnone]
    rfl

theorem inStep_use (load : String → Option (List Morsel)) {l : Ledger CookieKey Cookie} {jar : CookieJar}
    (h : InStep l jar) (use : JarUse) : InStep (noteUse load l use) (CookieJar.use load jar use) := by
  cases use with
  | set name value domain path =>
      have hstore := inStep_deed h
        (.store ⟨name, value, PyText.lower (lstripDots domain), path, false, none⟩)
      exact hstore
  | setFromResponse host now values =>
      rw [CookieJar.use, setFromResponse_deeds]
      exact inStep_deeds h _
  | clear => exact ⟨h.records.clear, nofun⟩
  | headerFor host path secure now => exact inStep_headerFor h host path secure now

theorem inStep_history (load : String → Option (List Morsel)) (uses : List JarUse) :
    InStep (uses.foldl (noteUse load) {}) (uses.foldl (CookieJar.use load) .empty) := by
  induction uses using List.reverseRecOn with
  | nil => exact ⟨Ledger.records_empty, nofun⟩
  | append_singleton uses use ih =>
      rw [List.foldl_concat, List.foldl_concat]
      exact inStep_use load ih use

-- The line of any history of uses is made of cookies under distinct keys, each
-- with the value it was last given: longer paths first, and among equals in the
-- order in which their keys came to be present.
theorem ordered_and_unique (load : String → Option (List Morsel)) (uses : List JarUse)
    (host path : String) (secure : Bool) (now : Rat) :
    (CookieJar.headerFor (uses.foldl (CookieJar.use load) .empty) host path secure now).1 =
      "; ".intercalate ((CookieJar.selected (uses.foldl (CookieJar.use load) .empty) host path secure
        now).map fun c => s!"{c.name}={c.value}") ∧
    ((CookieJar.selected (uses.foldl (CookieJar.use load) .empty) host path secure now).map
      Cookie.key).Nodup ∧
    (∀ c ∈ CookieJar.selected (uses.foldl (CookieJar.use load) .empty) host path secure now,
      (uses.foldl (noteUse load) {}).value? c.key = some c) ∧
    (CookieJar.selected (uses.foldl (CookieJar.use load) .empty) host path secure now).Pairwise
      fun a b => b.path.length < a.path.length ∨ a.path.length = b.path.length ∧
        (uses.foldl (noteUse load) {}).since a.key < (uses.foldl (noteUse load) {}).since b.key := by
  have hstep := inStep_history load uses
  generalize uses.foldl (CookieJar.use load) .empty = jar at hstep
  generalize uses.foldl (noteUse load) {} = l at hstep
  have hmatched : (((Dict.values jar).filter fun c => !CookieJar.expired now c).filter
      (CookieJar.matchesRequest (PyText.lower host) path secure)).Sublist (Dict.values jar) :=
    List.filter_sublist.trans List.filter_sublist
  refine ⟨rfl, ?_, ?_, ?_⟩
  · have hkeys : ((Dict.values jar).map Cookie.key).Nodup := by
      rw [← keys_eq hstep.keyed]
      exact jar.nodup
    exact ((List.perm_insertionSort _ _).map Cookie.key).nodup_iff.mpr ((hmatched.map _).nodup hkeys)
  · intro c hc
    obtain ⟨entry, he, rfl⟩ := List.mem_map.mp (mem_selected.mp hc).1
    rw [← hstep.records.agrees, ← hstep.keyed entry he]
    exact Dict.get?_of_mem he
  · apply pairwise_insertionSort_stable fun c : Cookie => c.path.length
    apply List.Pairwise.sublist hmatched
    have horder := hstep.records.inOrder
    rw [keys_eq hstep.keyed, List.pairwise_map] at horder
    exact horder

end NeverFox.Client
