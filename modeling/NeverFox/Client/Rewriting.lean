import NeverFox.Client.Journey

namespace NeverFox.Client.Copies

-- The redirects that turn a method into GET by the Fetch standard.
def turnsIntoGet (status : Option Int) (method : String) : Bool :=
  (status = some 301 || status = some 302) && method = "POST" ||
    status = some 303 && method ∉ ["GET", "HEAD"]

def describesBody (field : Header) : Bool :=
  PyText.lower field.1 = "content-type" || PyText.lower field.1 = "content-length"

def Unlabelled (fields : List Header) : Prop := ∀ field ∈ fields, describesBody field = false

-- Each leg has the method and the body that are due, and once a body was dropped
-- none describes it any more.
def AsFetched (method : String) (body : Body) (dropped : Bool) : List Leg → Prop
  | [] => True
  | leg :: rest =>
      leg.hop.method = method ∧ leg.hop.body = body ∧ (dropped → Unlabelled leg.hop.headers) ∧
        if turnsIntoGet leg.status method then AsFetched "GET" (.bytes []) true rest
        else AsFetched method body dropped rest

-- The responses that were followed to another leg.
def followed (legs : List Leg) : List (Option Int) := legs.dropLast.map Leg.status

-- The methods for which 303 does what it should.
def SEE_OTHER : List String := ["GET", "HEAD", "POST", "PUT", "PATCH"]

-- A 303 meets one of these methods, and where a body is dropped the caller's
-- headers have not described it.
structure Rewritable (method : String) (fields : List Header) (legs : List Leg) : Prop where
  known : some 303 ∈ followed legs → method ∈ SEE_OTHER
  unlabelled : (∃ status ∈ followed legs, rewritesMethod method status) → Unlabelled fields

theorem followed_cons (leg : Leg) {rest : List Leg} (h : rest ≠ []) :
    followed (leg :: rest) = leg.status :: followed rest := by
  rw [followed, List.dropLast_cons_of_ne_nil h]
  rfl

-- Where no response is followed there is nothing to ask for.
theorem rewritable_of_followed (method : String) (fields : List Header) {legs : List Leg}
    (h : followed legs = []) : Rewritable method fields legs := by
  refine ⟨?_, ?_⟩
  · rw [h]
    intro hmem
    exact absurd hmem List.not_mem_nil
  · rw [h]
    intro hsome
    obtain ⟨status, hmem, _⟩ := hsome
    exact absurd hmem List.not_mem_nil

-- The code turns what the standard turns, but for a 303 to a method it does not name.
theorem turnsIntoGet_iff (status : Option Int) (method : String) :
    turnsIntoGet status method = true ↔
      rewritesMethod method status = true ∨ status = some 303 ∧ method ∉ SEE_OTHER := by
  unfold turnsIntoGet rewritesMethod SEE_OTHER
  simp only [List.mem_cons, List.not_mem_nil, or_false, Bool.or_eq_true, Bool.and_eq_true,
    decide_eq_true_eq]
  constructor
  · rintro (⟨h, hm⟩ | ⟨h, hm⟩)
    · left
      exact ⟨.inl hm, by tauto⟩
    · by_cases hknown : method = "POST" ∨ method = "PUT" ∨ method = "PATCH"
      · left
        exact ⟨by tauto, by tauto⟩
      · right
        exact ⟨h, by tauto⟩
  · rintro (⟨hm, h⟩ | ⟨h, hm⟩)
    · rcases hm with rfl | ⟨hs, rfl | rfl⟩
      · rcases h with h | h | h
        · exact .inl ⟨.inl h, rfl⟩
        · exact .inl ⟨.inr h, rfl⟩
        · exact .inr ⟨h, by decide⟩
      · exact .inr ⟨hs, by decide⟩
      · exact .inr ⟨hs, by decide⟩
    · exact .inr ⟨h, by tauto⟩

theorem rewritesMethod_get (status : Option Int) : rewritesMethod "GET" status = false := by
  simp [rewritesMethod]

theorem mem_seeOther_of_rewrites {method : String} {status : Option Int}
    (h : rewritesMethod method status = true) : method ∈ SEE_OTHER := by
  unfold rewritesMethod at h
  simp only [Bool.and_eq_true, Bool.or_eq_true, decide_eq_true_eq] at h
  rcases h.1 with rfl | ⟨_, rfl | rfl⟩ <;> decide

-- What a redirect takes from the caller's list does not describe a body.
theorem unlabelled_stripHeaders (s : Session) (headers : Option (List Header)) (sameHost : Bool) :
    Unlabelled (baseHeaders s (stripHeaders headers sameHost)) ↔ Unlabelled (baseHeaders s headers) := by
  cases headers with
  | none => exact Iff.rfl
  | some fields =>
      simp only [stripHeaders, baseHeaders, Option.map_some, Option.getD_some]
      split
      · exact Iff.rfl
      · constructor
        · intro h field hf
          by_cases hs : isSensitive field = true
          · have hname : PyText.lower field.1 ∈ SENSITIVE_ON_REDIRECT := by
              simpa [isSensitive] using hs
            unfold describesBody
            simp only [SENSITIVE_ON_REDIRECT, List.mem_cons, List.not_mem_nil, or_false] at hname
            rcases hname with hname | hname | hname <;> rw [hname] <;> decide
          · exact h field (List.mem_filter.mpr ⟨hf, by simp [hs]⟩)
        · intro h field hf
          exact h field (List.mem_filter.mp hf).1

theorem unlabelled_navigated (cookie : String) (site : Option String) (field : Header) :
    Unlabelled (navigated cookie site field) ↔ describesBody field = false := by
  unfold navigated
  dsimp only
  split
  · rename_i h
    have hplain : describesBody field = false := by
      unfold describesBody
      rw [h.2]
      decide
    simp [Unlabelled, hplain]
  · have hcookie : describesBody ("cookie", cookie) = false := by
      have hname : PyText.lower "cookie" = "cookie" := by decide
      simp [describesBody, hname]
    constructor
    · intro h
      have hfield := h _ List.mem_cons_self
      exact hfield
    · intro h other ho
      rcases List.mem_cons.mp ho with rfl | ho
      · exact h
      · split at ho
        · obtain rfl := List.mem_singleton.mp ho
          exact hcookie
        · cases ho

-- The headers of a leg without a body's are as unlabelled as the base list.
theorem unlabelled_buildHeaders (s : Session) (headers : Option (List Header)) (line : String)
    (cookies : List (String × String)) (site : Option String) :
    Unlabelled (buildHeaders s headers [] line cookies site) ↔ Unlabelled (baseHeaders s headers) := by
  rw [buildHeaders, List.append_nil]
  constructor
  · intro h field hf
    rw [← unlabelled_navigated (cookieHeader line cookies) site]
    intro other ho
    exact h other (List.mem_flatMap.mpr ⟨field, hf, ho⟩)
  · intro h other ho
    obtain ⟨field, hf, ho⟩ := List.mem_flatMap.mp ho
    exact (unlabelled_navigated _ site field).mpr (h field hf) other ho

theorem rewritable_cons (method : String) (fields : List Header) (leg : Leg) {rest : List Leg}
    (h : rest ≠ []) : Rewritable method fields (leg :: rest) ↔
      (leg.status = some 303 → method ∈ SEE_OTHER) ∧
        (rewritesMethod method leg.status → Unlabelled fields) ∧ Rewritable method fields rest := by
  constructor
  · rintro ⟨hknown, hlabels⟩
    rw [followed_cons leg h] at hknown hlabels
    refine ⟨fun hs => hknown (by simp [hs]), fun hr => hlabels ⟨_, List.mem_cons_self, hr⟩, ?_⟩
    refine ⟨fun hs => hknown (List.mem_cons_of_mem _ hs), ?_⟩
    rintro ⟨status, hs, hr⟩
    exact hlabels ⟨status, List.mem_cons_of_mem _ hs, hr⟩
  · rintro ⟨hfirst, hfirstLabels, hrest⟩
    constructor
    · rw [followed_cons leg h]
      intro hs
      rcases List.mem_cons.mp hs with hs | hs
      · exact hfirst hs.symm
      · exact hrest.known hs
    · rw [followed_cons leg h]
      rintro ⟨status, hs, hr⟩
      rcases List.mem_cons.mp hs with rfl | hs
      · exact hfirstLabels hr
      · exact hrest.unlabelled ⟨status, hs, hr⟩

-- Nothing more happens to a GET.
theorem rewritable_get (fields : List Header) (legs : List Leg) : Rewritable "GET" fields legs := by
  refine ⟨fun _ => by decide, ?_⟩
  rintro ⟨status, _, hr⟩
  rw [rewritesMethod_get] at hr
  cases hr

variable {W : Type}

theorem head_departs {send : Hop → Shared W → Except Raised (Option Response) × Shared W} {env : Env W}
    {s : Session} {counts : Counts} {call : Call} {n : Nat} {v : Vars} {history : List Reply} {σ : Shared W}
    {leg : Leg} {rest : List Leg} (h : (journey send env s counts call n v history σ).1 = leg :: rest) :
    leg.hop.method = v.method := by
  rcases journey_cases send env s counts call n v history σ with hnil | ⟨first, _, hlegs, hdeparts, _⟩
  · rw [hnil] at h
    cases h
  · rw [hlegs] at h
    obtain ⟨rfl, _⟩ := List.cons.inj h
    exact hdeparts.method

-- From any point of a journey on. A body that is already dropped asks for an
-- unlabelled list at once.
theorem asFetched_iff (send : Hop → Shared W → Except Raised (Option Response) × Shared W) (env : Env W)
    (s : Session) (counts : Counts) (call : Call) (n : Nat) (v : Vars) (history : List Reply)
    (σ : Shared W) (dropped : Bool) (hdropped : dropped → v.bodyHeaders = []) :
    AsFetched v.method v.body dropped (journey send env s counts call n v history σ).1 ↔
      Rewritable v.method (baseHeaders s v.headers) (journey send env s counts call n v history σ).1 ∧
        (dropped → (journey send env s counts call n v history σ).1 ≠ [] →
          Unlabelled (baseHeaders s v.headers)) := by
  induction n generalizing v history σ dropped with
  | zero =>
      rw [journey]
      exact ⟨fun _ => ⟨rewritable_of_followed _ _ rfl, fun _ h => absurd rfl h⟩, fun _ => trivial⟩
  | succ n ih =>
      rcases journey_cases send env s counts call (n + 1) v history σ with
        hnil | ⟨leg, rest, hlegs, hdeparts, hrest⟩
      · rw [hnil]
        exact ⟨fun _ => ⟨rewritable_of_followed _ _ rfl, fun _ h => absurd rfl h⟩, fun _ => trivial⟩
      rw [hlegs, AsFetched]
      have hfirst : leg.hop.method = v.method ∧ leg.hop.body = v.body := ⟨hdeparts.method, hdeparts.body⟩
      have hlabels : (dropped → Unlabelled leg.hop.headers) ↔
          (dropped → Unlabelled (baseHeaders s v.headers)) := by
        obtain ⟨line, hheaders⟩ := hdeparts.headers
        apply imp_congr_right
        intro hd
        rw [hheaders, hdropped hd]
        exact unlabelled_buildHeaders s v.headers line call.cookies v.redirectSite
      rw [hlabels]
      by_cases hlast : rest = []
      · subst hlast
        have hquiet : Rewritable v.method (baseHeaders s v.headers) [leg] := rewritable_of_followed _ _ rfl
        simp only [AsFetched, ite_self, and_true, hfirst, hquiet, true_and, ne_eq, reduceCtorEq,
          not_false_eq_true, forall_const]
      · obtain ⟨m, next, replies, τ, hm, harrives, hnext⟩ := hrest.resolve_left hlast
        obtain rfl : m = n := by omega
        obtain ⟨sameHost, hheaders⟩ := harrives.headers
        have hbase : Unlabelled (baseHeaders s next.headers) ↔ Unlabelled (baseHeaders s v.headers) := by
          rw [hheaders]
          exact unlabelled_stripHeaders s v.headers sameHost
        rw [rewritable_cons v.method _ leg hlast]
        by_cases hr : rewritesMethod v.method leg.status = true
        · -- The body is dropped here, and nothing but the labels is left to ask for.
          have hturn := (turnsIntoGet_iff leg.status v.method).mpr (.inl hr)
          have hmethod := harrives.method
          have hbody := harrives.body
          have hlater := ih next replies τ true fun _ => by rw [harrives.bodyHeaders, if_pos hr]
          rw [if_pos hr] at hmethod hbody
          rw [← hnext, hmethod, hbody] at hlater
          rw [if_pos hturn, hlater, hbase]
          constructor
          · rintro ⟨_, _, hnow, _, hlabels⟩
            have hclean := hlabels rfl hlast
            exact ⟨⟨fun _ => mem_seeOther_of_rewrites hr, fun _ => hclean,
              ⟨fun _ => mem_seeOther_of_rewrites hr, fun _ => hclean⟩⟩, fun hd _ => hnow hd⟩
          · rintro ⟨⟨_, hclean, _⟩, hnow⟩
            exact ⟨hfirst.1, hfirst.2, fun hd => hnow hd (by simp), rewritable_get _ _, fun _ _ => hclean hr⟩
        · have hmethod := harrives.method
          have hbody := harrives.body
          have hlater := ih next replies τ dropped fun hd => by
            rw [harrives.bodyHeaders, if_neg hr, hdropped hd]
          rw [if_neg hr] at hmethod hbody
          by_cases hmissed : leg.status = some 303 ∧ v.method ∉ SEE_OTHER
          · -- The next leg should be a GET and is not.
            have hturn := (turnsIntoGet_iff leg.status v.method).mpr (.inr hmissed)
            rw [if_pos hturn]
            constructor
            · rintro ⟨_, _, _, hfetched⟩
              obtain ⟨second, others, rfl⟩ := List.exists_cons_of_ne_nil hlast
              have hget : v.method = "GET" := by
                rw [← hmethod, ← head_departs hnext.symm]
                exact hfetched.1
              exact absurd (by rw [hget]; decide) hmissed.2
            · rintro ⟨⟨hknown, _⟩, _⟩
              exact absurd (hknown hmissed.1) hmissed.2
          · have hturn : ¬turnsIntoGet leg.status v.method = true := by
              rw [turnsIntoGet_iff]
              rintro (h | h)
              · exact hr h
              · exact hmissed h
            rw [← hnext, hmethod, hbody] at hlater
            rw [if_neg hturn, hlater]
            have hsame : Rewritable v.method (baseHeaders s next.headers) rest ↔
                Rewritable v.method (baseHeaders s v.headers) rest :=
              ⟨fun h => ⟨h.known, fun hs => hbase.mp (h.unlabelled hs)⟩,
                fun h => ⟨h.known, fun hs => hbase.mpr (h.unlabelled hs)⟩⟩
            rw [hsame, hbase]
            constructor
            · rintro ⟨_, _, hnow, hlegs, _⟩
              refine ⟨⟨fun hs => ?_, fun h => absurd h hr, hlegs⟩, fun hd _ => hnow hd⟩
              by_contra hno
              exact hmissed ⟨hs, hno⟩
            · rintro ⟨⟨_, _, hlegs⟩, hnow⟩
              exact ⟨hfirst.1, hfirst.2, fun hd => hnow hd (by simp), hlegs, fun hd _ => hnow hd (by simp)⟩

-- Along the legs of any request of either copy, methods, bodies and the labels
-- of bodies are those of the Fetch standard exactly when no 303 is followed with a
-- method the code does not name, and the caller's headers do not describe a body
-- that a redirect drops.
theorem rewriting_as_fetched_iff (env : Env W) (s : Session) (counts : Counts) (call : Call)
    (σ : Shared W) :
    (Sync.request env s counts call σ =
      (journey (Sync.doHop env s counts) env s counts call (counts.maxRedirects + 1).toNat
        (.start env s call) [] σ).2 ∧
    Async.request env s counts call σ =
      (journey (Async.doHop env s counts) env s counts call (counts.maxRedirects + 1).toNat
        (.start env s call) [] σ).2) ∧
    (AsFetched (PyText.upper call.method) (prepareBody env.text call.data call.json).1 false
        (Sync.legs env s counts call σ) ↔
      Rewritable (PyText.upper call.method) (baseHeaders s call.headers)
        (Sync.legs env s counts call σ)) ∧
    (AsFetched (PyText.upper call.method) (prepareBody env.text call.data call.json).1 false
        (Async.legs env s counts call σ) ↔
      Rewritable (PyText.upper call.method) (baseHeaders s call.headers)
        (Async.legs env s counts call σ)) := by
  refine ⟨⟨sync_request_eq env s counts call σ, async_request_eq env s counts call σ⟩, ?_, ?_⟩
  · have hiff := asFetched_iff (Sync.doHop env s counts) env s counts call
      (counts.maxRedirects + 1).toNat (.start env s call) [] σ false nofun
    exact hiff.trans (and_iff_left nofun)
  · have hiff := asFetched_iff (Async.doHop env s counts) env s counts call
      (counts.maxRedirects + 1).toNat (.start env s call) [] σ false nofun
    exact hiff.trans (and_iff_left nofun)

def seeOther : Env (List RawResponse) := scripted fun _ => .ok ⟨"https", some "a.example", none, "/", ""⟩

def redirectTo (status : Int) : RawResponse := ⟨some status, [("location", "https://a.example/")], []⟩

-- A 303 repeats a DELETE, and a POST that becomes a GET keeps the caller's content type.
theorem delete_repeated :
    ¬AsFetched "DELETE" (.bytes []) false (Sync.legs seeOther { headers := [] } {}
      { method := "DELETE", url := "https://a.example/" } (fresh [redirectTo 303])) ∧
    ¬AsFetched "POST" (.bytes [1]) false (Sync.legs seeOther { headers := [] } {}
      { method := "POST", url := "https://a.example/", headers := some [("Content-Type", "text/plain")],
        data := .raw (.bytes [1]) } (fresh [redirectTo 302])) := by
  have hdelete : (Sync.legs seeOther { headers := [] } {}
      { method := "DELETE", url := "https://a.example/" } (fresh [redirectTo 303])).map
        (fun leg => (leg.hop.method, leg.status)) = [("DELETE", some 303), ("DELETE", none)] := by
    decide +kernel
  have hpost : (Sync.legs seeOther { headers := [] } {}
      { method := "POST", url := "https://a.example/", headers := some [("Content-Type", "text/plain")],
        data := .raw (.bytes [1]) } (fresh [redirectTo 302])).map
        (fun leg => (leg.hop.method, leg.status, leg.hop.headers)) =
      [("POST", some 302, [("Content-Type", "text/plain")]),
        ("GET", none, [("Content-Type", "text/plain")])] := by
    decide +kernel
  constructor
  · obtain ⟨first, rest, hlegs, hfirst, hrest⟩ := List.map_eq_cons_iff.mp hdelete
    obtain ⟨second, others, rfl, hsecond, _⟩ := List.map_eq_cons_iff.mp hrest
    rw [hlegs, AsFetched, (Prod.mk.inj hfirst).2, if_pos (by decide)]
    rintro ⟨_, _, _, hget, _⟩
    exact absurd ((Prod.mk.inj hsecond).1.symm.trans hget) (by decide)
  · obtain ⟨first, rest, hlegs, hfirst, hrest⟩ := List.map_eq_cons_iff.mp hpost
    obtain ⟨second, others, rfl, hsecond, _⟩ := List.map_eq_cons_iff.mp hrest
    simp only [Prod.mk.injEq] at hfirst hsecond
    rw [hlegs, AsFetched, hfirst.2.1, if_pos (by decide)]
    rintro ⟨_, _, _, _, _, hclean, _⟩
    have hlabel := hclean rfl ("Content-Type", "text/plain") (by rw [hsecond.2.2]; simp)
    exact absurd hlabel (by decide)

end NeverFox.Client.Copies
