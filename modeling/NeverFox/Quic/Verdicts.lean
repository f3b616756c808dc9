import NeverFox.Quic.Agent

namespace NeverFox.Quic

namespace SecretAgent

variable {Info : Type} {convert : TlsError → TlsError} {s t : SecretAgent Info}

theorem pending_cases (state : HandshakeState Info) : pending state = [] ∨ ∃ err, pending state = [err] := by
  cases state with
  | authenticated err => exact .inr ⟨err, rfl⟩
  | new | inProgress | authenticationPending | echFallbackAuthenticationPending | complete | failed =>
      exact .inl rfl

theorem serve_answering {raw : Bool} {rest : List Mark} (h : ∀ m ∈ rest, Answering raw m) (waits : List Int) :
    Transition.run serve waits rest = some waits := by
  induction rest with
  | nil => rfl
  | cons m rest ih =>
      rw [List.forall_mem_cons] at h
      rcases h.1 with rfl | rfl | ⟨ends, rfl⟩
      · exact ih h.2
      · exact ih h.2
      · exact ih h.2

theorem verdicts_cons (m : Mark) (log : List Mark) : verdicts (m :: log) = verdicts [m] ++ verdicts log :=
  @List.filterMap_append _ _ [m] log _

theorem given_cons (m : Mark) (log : List Mark) : given (m :: log) = given [m] ++ given log :=
  @List.filterMap_append _ _ [m] log _

-- All that a mark can do to the place.
theorem serve_cases {waits next : List Int} {m : Mark} (h : serve waits m = some next) :
    (∃ err, m = .verdict err ∧ waits = [] ∧ next = [err]) ∨
      (∃ raw err, m = .complete raw err ∧ waits = [err] ∧ next = []) ∨
      (m = .setupFailed ∧ next = []) ∨ verdicts [m] = [] ∧ given [m] = [] ∧ next = waits := by
  cases m with
  | verdict err =>
      obtain ⟨hwaits, hnext⟩ := Option.ite_none_right_eq_some.mp h
      exact .inl ⟨err, rfl, hwaits, (Option.some.inj hnext).symm⟩
  | complete raw err =>
      obtain ⟨hwaits, hnext⟩ := Option.ite_none_right_eq_some.mp h
      exact .inr (.inl ⟨raw, err, rfl, hwaits, (Option.some.inj hnext).symm⟩)
  | setupFailed => exact .inr (.inr (.inl ⟨rfl, (Option.some.inj h).symm⟩))
  | force | hooked | succeeded => exact .inr (.inr (.inr ⟨rfl, rfl, (Option.some.inj h).symm⟩))

-- What leaves the place came into it, in this order.
theorem serve_sublist {waits waits' : List Int} {log : List Mark}
    (h : Transition.run serve waits log = some waits') :
    (given log ++ waits').Sublist (waits ++ verdicts log) := by
  induction log generalizing waits with
  | nil =>
      obtain rfl := Option.some.inj h
      exact (List.append_nil waits).symm ▸ .refl waits
  | cons m log ih =>
      obtain ⟨next, hserve, hrest⟩ := Transition.run_cons_eq_some.mp h
      have hlog := ih hrest
      rcases serve_cases hserve with ⟨err, rfl, rfl, rfl⟩ | ⟨raw, err, rfl, rfl, rfl⟩ | ⟨rfl, rfl⟩ |
        ⟨hverdicts, hgiven, rfl⟩
      · exact hlog
      · exact hlog.cons_cons err
      · exact hlog.trans (List.sublist_append_right waits _)
      · rw [given_cons, verdicts_cons, hgiven, hverdicts]
        exact hlog

-- A verdict was given to NSS, waits, or was there when a setup failed.
inductive Fate (err : Int) (after : List Mark) (waits : List Int) : Prop
  | handed (between : List Mark) (raw : Bool) (rest : List Mark)
      (log : after = between ++ .complete raw err :: rest) (first : given between = [])
  | waiting (none : given after = []) (last : waits = [err])
  | dropped (between rest : List Mark) (log : after = between ++ .setupFailed :: rest)
      (first : given between = [])

theorem Fate.cons {err : Int} {after : List Mark} {waits : List Int} (h : Fate err after waits) {m : Mark}
    (hm : given [m] = []) : Fate err (m :: after) waits := by
  have hcons : ∀ between, given between = [] → given (m :: between) = [] := by
    intro between hnone
    rw [given_cons, hm, hnone, List.append_nil]
  cases h with
  | handed between raw rest log first =>
      exact .handed (m :: between) raw rest (congrArg _ log) (hcons between first)
  | waiting none last => exact .waiting (hcons after none) last
  | dropped between rest log first =>
      exact .dropped (m :: between) rest (congrArg _ log) (hcons between first)

theorem serve_fate {err : Int} {after : List Mark} {waits : List Int}
    (h : Transition.run serve [err] after = some waits) : Fate err after waits := by
  induction after with
  | nil => exact .waiting rfl (Option.some.inj h).symm
  | cons m after ih =>
      obtain ⟨next, hserve, hrest⟩ := Transition.run_cons_eq_some.mp h
      rcases serve_cases hserve with ⟨_, _, hnil, _⟩ | ⟨raw, err', rfl, herr, _⟩ | ⟨rfl, _⟩ |
        ⟨_, hgiven, rfl⟩
      · cases hnil
      · obtain rfl := List.singleton_inj.mp herr
        exact .handed [] raw after rfl rfl
      · exact .dropped [] after rfl rfl
      · exact (ih hrest).cons hgiven

-- What an agent did is a run of a place for one verdict, and its calls are of one
-- method.
structure Handed (s : SecretAgent Info) : Prop where
  served : Transition.run serve [] s.log = some (pending s.state)
  method : ∀ m ∈ s.log, ∀ raw, m.method = some raw → s.raw = some raw

theorem Handed.more (h : Handed s) {more : List Mark} (hlog : t.log = s.log ++ more) :
    Transition.run serve [] t.log = Transition.run serve (pending s.state) more := by
  rw [hlog, Transition.run_append, h.served, Option.bind_some]

theorem handed_quiet (h : Handed s) (hquiet : Quiet s t) : Handed t := by
  have hmethod : ∀ m ∈ s.log, ∀ raw, m.method = some raw → t.raw = some raw := by
    intro m hm raw hraw
    have hsome := h.method m hm raw hraw
    rcases hquiet.method with hsame | hnone
    · rw [hsame, hsome]
    · rw [hnone] at hsome
      cases hsome
  rcases hquiet.kept with ⟨hlog, hstate⟩ | ⟨hlog, e, hfailed⟩
  · exact ⟨by rw [hlog, hstate]; exact h.served, by rw [hlog]; exact hmethod⟩
  · refine ⟨by rw [h.more hlog, hfailed]; rfl, fun m hm raw hraw => ?_⟩
    rw [hlog] at hm
    rcases List.mem_append.mp hm with hm | hm
    · exact hmethod m hm raw hraw
    · rw [List.mem_singleton.mp hm] at hraw
      cases hraw

theorem handed_verdict {err : Int} (h : Handed s) (hnone : pending s.state = [])
    (hstate : t.state = .authenticated err) (hraw : t.raw = s.raw) (hlog : t.log = s.log ++ [.verdict err]) :
    Handed t := by
  refine ⟨by rw [h.more hlog, hnone, hstate]; rfl, fun m hm raw hmethod => ?_⟩
  rw [hlog] at hm
  rw [hraw]
  rcases List.mem_append.mp hm with hm | hm
  · exact h.method m hm raw hmethod
  · rw [List.mem_singleton.mp hm] at hmethod
    cases hmethod

theorem method_of_answering {raw r : Bool} {m : Mark} (h : Answering raw m) (hm : m.method = some r) :
    raw = r := by
  rcases h with rfl | rfl | ⟨ends, rfl⟩
  · cases hm
  · exact Option.some.inj hm
  · cases hm

theorem serve_pending (raw : Bool) (state : HandshakeState Info) :
    Transition.run serve (pending state) ((pending state).map (.complete raw)) = some [] := by
  rcases pending_cases state with h | ⟨err, h⟩
  · rw [h]
    rfl
  · rw [h]
    exact Option.bind_eq_some_iff.mpr ⟨[], if_pos rfl, rfl⟩

theorem handed_driven {raw : Bool} (h : Handed s) (hmethod : s.raw = none ∨ s.raw = some raw)
    (hdriven : Driven s t raw) : Handed t := by
  obtain ⟨rest, hlog, hrest, _⟩ := hdriven.log
  constructor
  · rw [h.more hlog, Transition.run_append, serve_pending, Option.bind_some, serve_answering hrest,
      hdriven.settled]
  · intro m hm r hr
    rw [hlog] at hm
    rw [hdriven.method]
    rcases List.mem_append.mp hm with hm | hm
    · have hraw := h.method m hm r hr
      rcases hmethod with hno | hsome
      · rw [hno] at hraw
        cases hraw
      · rw [← hsome, hraw]
    · rcases List.mem_append.mp hm with hm | hm
      · obtain ⟨err, _, rfl⟩ := List.mem_map.mp hm
        exact hr
      · rw [method_of_answering (hrest m hm) hr]

-- In every run each verdict of the caller is given to NSS once at most, in the
-- order in which they came, and once or still waiting unless no list for records
-- could be set up while it waited. The two ways to drive a handshake are not mixed.
theorem verdicts_given_once {ops : List (AgentOp Info)} (hnamed : ∀ op ∈ ops, op.Named)
    (hrun : Transition.run (step convert) {} ops = some s) :
    (given s.log ++ pending s.state).Sublist (verdicts s.log) ∧
      (∀ before err after, s.log = before ++ .verdict err :: after → Fate err after (pending s.state)) ∧
      ∀ m ∈ s.log, ∀ raw, m.method = some raw → s.raw = some raw := by
  have hstart : Handed ({} : SecretAgent Info) := ⟨rfl, nofun⟩
  have hmeets : Transition.Meets (step convert) (fun _ op => op.Named) ({} : SecretAgent Info) ops :=
    .of_forall fun op hop _ => hnamed op hop
  have hend := Transition.invariant Handed (fun s op t h hok hs => by
    rcases step_cases hok hs with hquiet | ⟨err, hnone, hstate, hraw, hlog⟩ | ⟨raw, hmethod, hdriven⟩
    · exact handed_quiet h hquiet
    · exact handed_verdict h hnone hstate hraw hlog
    · exact handed_driven h hmethod hdriven) hstart hmeets hrun
  refine ⟨serve_sublist hend.served, fun before err after hlog => ?_, hend.method⟩
  have hserved := hend.served
  rw [hlog, Transition.run_append] at hserved
  obtain ⟨waits, _, hafter⟩ := Option.bind_eq_some_iff.mp hserved
  obtain ⟨next, hverdict, hrest⟩ := Transition.run_cons_eq_some.mp hafter
  obtain ⟨_, hnext⟩ := Option.ite_none_right_eq_some.mp hverdict
  obtain rfl := Option.some.inj hnext
  exact serve_fate hrest

-- NSS asks, and goes on as soon as it is told.
def asking : Answers Unit where
  now := .ok ()
  register := .ok ()
  setup := .ok ()
  completed := { rv := .ok () }
  written := some { rv := .ok (), alerts := [⟨1, 0⟩] }
  forced := { rv := .error .wouldBlock, hooked := true }
  publicName := .ok none
  info := .ok ()

-- A certificate that is refused, on records: NSS takes the verdict, and ends the
-- handshake when it is driven on.
def refusedRaw : List (AgentOp Unit) :=
  [.handshakeRaw asking, .authenticated (-8172),
    .handshakeRaw { asking with
      completed := { rv := .ok (), alerts := [⟨2, 42⟩, ⟨2, 80⟩] }
      written := none
      forced := { rv := .error (.nss (-8172)) } }]

def refusingAgent : SecretAgent Unit where
  raw := some true
  state := .failed (.nss (-8172))
  alert := some 42
  log := [.force true, .hooked, .verdict (-8172), .complete true (-8172), .succeeded false, .force true]

theorem verdicts_given_once_refused : Transition.run (step id) {} refusedRaw = some refusingAgent ∧
    ([-8172] ++ []).Sublist [-8172] ∧
    Fate (-8172) [.complete true (-8172), .succeeded false, .force true] [] := by
  have hrun : Transition.run (step id) {} refusedRaw = some refusingAgent := rfl
  have hnamed : ∀ op ∈ refusedRaw, op.Named := by
    simp only [refusedRaw, List.forall_mem_cons]
    exact ⟨⟨none, rfl⟩, trivial, ⟨none, rfl⟩, fun _ h => absurd h List.not_mem_nil⟩
  obtain ⟨hsublist, hfate, _⟩ := verdicts_given_once hnamed hrun
  exact ⟨hrun, hsublist, hfate [.force true, .hooked] (-8172) _ rfl⟩

theorem trusted_append (waits : Bool) (log more : List Mark) :
    trusted waits (log ++ more) = (trusted waits log && trusted (log.foldl owes waits) more) := by
  induction log generalizing waits with
  | nil => rfl
  | cons m log ih =>
      rw [List.cons_append, trusted, trusted, ih, Bool.and_assoc]
      rfl

-- Where NSS does not wait, the caller has said so.
def Spoken (log : List Mark) : Prop := owed log = false → cleared log = true

theorem owed_append (log more : List Mark) : owed (log ++ more) = more.foldl owes (owed log) :=
  List.foldl_append

theorem cleared_append (log more : List Mark) : cleared (log ++ more) = more.foldl clears (cleared log) :=
  List.foldl_append

theorem spoken_answering {raw : Bool} {log rest : List Mark} (h : Spoken log)
    (hrest : ∀ m ∈ rest, Answering raw m) : Spoken (log ++ rest) := by
  induction rest generalizing log with
  | nil => rwa [List.append_nil]
  | cons m rest ih =>
      rw [List.forall_mem_cons] at hrest
      have hnext : Spoken (log ++ [m]) := by
        intro howed
        rw [owed_append] at howed
        rw [cleared_append]
        rcases hrest.1 with rfl | rfl | ⟨ends, rfl⟩
        · cases howed
        · exact h howed
        · exact h howed
      rw [List.append_cons]
      exact ih hnext hrest.2

-- The state that the certificate is in, for the caller and for NSS.
structure Vouched (s : SecretAgent Info) : Prop where
  spoken : Spoken s.log
  waiting : s.state = .authenticated 0 → cleared s.log = true
  complete : ∀ info, s.state = .complete info → cleared s.log = true

theorem vouched_quiet (h : Vouched s) (hquiet : Quiet s t) : Vouched t := by
  rcases hquiet.kept with ⟨hlog, hstate⟩ | ⟨hlog, e, hfailed⟩
  · refine ⟨?_, ?_, ?_⟩
    · rw [hlog]
      exact h.spoken
    · rw [hstate, hlog]
      exact h.waiting
    · rw [hstate, hlog]
      exact h.complete
  · refine ⟨?_, ?_, ?_⟩
    · intro howed
      rw [hlog, owed_append] at howed
      rw [hlog, cleared_append]
      exact h.spoken howed
    · rw [hfailed]
      exact nofun
    · rw [hfailed]
      exact nofun

theorem vouched_verdict {err : Int} (h : Vouched s) (hstate : t.state = .authenticated err)
    (hlog : t.log = s.log ++ [.verdict err]) : Vouched t := by
  have howed : owed t.log = owed s.log := by
    rw [hlog, owed_append]
    rfl
  have hcleared : cleared t.log = (cleared s.log || err = 0) := by
    rw [hlog, cleared_append]
    rfl
  refine ⟨?_, ?_, ?_⟩
  · intro hno
    rw [howed] at hno
    rw [hcleared, h.spoken hno, Bool.true_or]
  · rw [hstate]
    intro hzero
    have herr : err = 0 := by
      injection hzero
    rw [hcleared, decide_eq_true herr, Bool.or_true]
  · rw [hstate]
    exact nofun

-- Once NSS has the verdict that waited, it need not wait for one that was good.
theorem spoken_given (h : Vouched s) (raw : Bool) :
    Spoken (s.log ++ (pending s.state).map (.complete raw)) := by
  cases hstate : s.state with
  | authenticated err =>
      intro howed
      rw [owed_append] at howed
      rw [cleared_append]
      have hparts : (owed s.log && decide (err ≠ 0)) = false := howed
      rw [Bool.and_eq_false_iff, decide_eq_false_iff_not, not_not] at hparts
      rcases hparts with hno | hzero
      · exact h.spoken hno
      · rw [hzero] at hstate
        exact h.waiting hstate
  | new | inProgress | authenticationPending | echFallbackAuthenticationPending | complete | failed =>
      show Spoken (s.log ++ [])
      rw [List.append_nil]
      exact h.spoken

theorem vouched_driven {raw : Bool} (h : Vouched s) (hdriven : Driven s t raw)
    (htrusted : trusted false t.log = true) : Vouched t := by
  obtain ⟨rest, hlog, hrest, hcomplete⟩ := hdriven.log
  rw [← List.append_assoc] at hlog
  have hgiven := spoken_given h raw
  refine ⟨?_, ?_, ?_⟩
  · rw [hlog]
    exact spoken_answering hgiven hrest
  · intro hstate
    have hsettled := hdriven.settled
    rw [hstate] at hsettled
    cases hsettled
  · intro info hinfo
    obtain ⟨init, rfl⟩ := hcomplete info hinfo
    have hinit : ∀ m ∈ init, Answering raw m := fun m hm => hrest m (List.mem_append_left _ hm)
    rw [← List.append_assoc] at hlog
    rw [hlog, trusted_append, Bool.and_eq_true] at htrusted
    have hno : owed (s.log ++ (pending s.state).map (.complete raw) ++ init) = false := by
      have hlast := htrusted.2
      simpa [trusted, owed] using hlast
    rw [hlog, cleared_append]
    exact spoken_answering hgiven hinit hno

-- Without a good verdict behind it, what NSS has asked is not cleared.
theorem not_cleared {after : List Mark} (h : .verdict 0 ∉ after) : after.foldl clears false = false := by
  induction after with
  | nil => rfl
  | cons m after ih =>
      rw [List.mem_cons, not_or] at h
      have hm : clears false m = false := by
        cases m with
        | verdict err =>
            have hne : err ≠ 0 := fun hzero => h.1 (congrArg Mark.verdict hzero.symm)
            show (false || decide (err = 0)) = false
            rw [decide_eq_false hne]
            rfl
        | complete | force | hooked | succeeded | setupFailed => rfl
      rw [List.foldl_cons, hm]
      exact ih h.2

-- In every run on an NSS that keeps to its part, a handshake is complete only if
-- the caller has called the peer authentic after NSS asked for it last.
theorem connected_authenticated {ops : List (AgentOp Info)} (hnamed : ∀ op ∈ ops, op.Named)
    (hrun : Transition.run (step convert) {} ops = some s) (hnss : trusted false s.log = true)
    {info : Info} (hdone : s.state = .complete info) {before after : List Mark}
    (hasked : s.log = before ++ .hooked :: after) : .verdict 0 ∈ after := by
  have hstart : trusted false ({} : SecretAgent Info).log = true → Vouched ({} : SecretAgent Info) :=
    fun _ => ⟨fun _ => rfl, nofun, nofun⟩
  have hmeets : Transition.Meets (step convert) (fun _ op => op.Named) ({} : SecretAgent Info) ops :=
    .of_forall fun op hop _ => hnamed op hop
  have hend := Transition.invariant (fun s : SecretAgent Info => trusted false s.log = true → Vouched s)
    (fun s op t h hok hs htrusted => by
      have hlater : ∀ more, t.log = s.log ++ more → Vouched s := by
        intro more hmore
        rw [hmore, trusted_append, Bool.and_eq_true] at htrusted
        exact h htrusted.1
      rcases step_cases hok hs with hquiet | ⟨err, _, hstate, _, hlog⟩ | ⟨raw, _, hdriven⟩
      · refine vouched_quiet ?_ hquiet
        rcases hquiet.kept with ⟨hlog, _⟩ | ⟨hlog, _⟩
        · exact hlater [] (by rw [hlog, List.append_nil])
        · exact hlater _ hlog
      · exact vouched_verdict (hlater _ hlog) hstate hlog
      · obtain ⟨rest, hlog, _⟩ := hdriven.log
        exact vouched_driven (hlater _ hlog) hdriven htrusted) hstart hmeets hrun
  have hcleared := (hend hnss).complete info hdone
  by_contra hno
  rw [hasked, cleared_append, List.foldl_cons] at hcleared
  have hfalse : after.foldl clears false = true := hcleared
  rw [not_cleared hno] at hfalse
  cases hfalse

-- One that is accepted.
def acceptedPeer : List (AgentOp Unit) := [.handshake asking, .authenticated 0, .handshake asking]

def acceptingAgent : SecretAgent Unit where
  raw := some false
  state := .complete ()
  log := [.force false, .hooked, .verdict 0, .complete false 0, .succeeded true]

theorem connected_authenticated_accepted : Transition.run (step id) {} acceptedPeer = some acceptingAgent ∧
    .verdict 0 ∈ [.verdict 0, .complete false 0, Mark.succeeded true] := by
  have hrun : Transition.run (step id) {} acceptedPeer = some acceptingAgent := rfl
  have hnamed : ∀ op ∈ acceptedPeer, op.Named := by
    simp only [acceptedPeer, List.forall_mem_cons]
    exact ⟨⟨none, rfl⟩, trivial, ⟨none, rfl⟩, fun _ h => absurd h List.not_mem_nil⟩
  exact ⟨hrun, @connected_authenticated _ id _ acceptedPeer hnamed hrun rfl () rfl [.force false] _ rfl⟩

end SecretAgent

end NeverFox.Quic
