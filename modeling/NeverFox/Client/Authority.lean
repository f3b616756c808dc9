import NeverFox.Client.Journey

namespace NeverFox.Client.Copies

def defaultPort (scheme : String) : Option Nat :=
  if scheme = "https" then some 443 else if scheme = "http" then some 80 else none

-- The port behind the host of an authority.
def readPort (scheme : String) : List Char → Option Nat
  | [] => defaultPort scheme
  | ':' :: digits =>
      if digits = [] then defaultPort scheme
      else if digits.all (PyText.isDigit 10) then some (PyText.ofDigits 10 digits)
      else none
  | _ => none

-- What an authority denotes: an IP literal in brackets, or a host without a
-- colon, and a port.
def readAuthority (scheme text : String) : Option (String × Nat) :=
  match text.toList with
  | '[' :: literal =>
      match literal.dropWhile (· ≠ ']') with
      | [] => none
      | _ :: rest => (readPort scheme rest).map (String.ofList (literal.takeWhile (· ≠ ']')), ·)
  | chars => (readPort scheme (chars.dropWhile (· ≠ ':'))).map (String.ofList (chars.takeWhile (· ≠ ':')), ·)

theorem readAuthority_plain {scheme text : String} (h : text.toList.head? ≠ some '[') :
    readAuthority scheme text = (readPort scheme (text.toList.dropWhile (· ≠ ':'))).map
      (String.ofList (text.toList.takeWhile (· ≠ ':')), ·) := by
  unfold readAuthority
  split
  · rename_i literal htext
    rw [htext] at h
    exact absurd rfl h
  · rfl

theorem readPort_digits (scheme : String) (port : Nat) :
    readPort scheme (':' :: Nat.toDigits 10 port) = some port := by
  rw [readPort, if_neg Nat.toDigits_ne_nil, if_pos, PyText.ofDigits_toDigits]
  rw [List.all_eq_true]
  intro c hc
  exact (PyText.isDigit_toDigits hc).1

-- A host with a colon is never read back without its brackets.
theorem readAuthority_ne_of_colon {scheme text host : String} (port : Nat)
    (htext : text.toList.head? ≠ some '[') (hhost : ':' ∈ host.toList) :
    readAuthority scheme text ≠ some (host, port) := by
  rw [readAuthority_plain htext]
  intro h
  obtain ⟨_, _, heq⟩ := Option.map_eq_some_iff.mp h
  have hname : text.toList.takeWhile (· ≠ ':') = host.toList := by
    rw [← (Prod.mk.inj heq).1, String.toList_ofList]
  rw [← hname] at hhost
  simpa using List.mem_takeWhile_imp hhost

theorem authority_toList (host : String) (port : Nat) :
    (authority host port).toList =
      if port = 443 ∨ port = 80 then host.toList else host.toList ++ ':' :: Nat.toDigits 10 port := by
  unfold authority
  split
  · rfl
  · simp [toString]

-- The text is read as the host and the port it was made from exactly when the
-- host needs no brackets and the port was rightly left out, or is there.
theorem readAuthority_authority_iff {scheme host : String} {port default : Nat}
    (hscheme : defaultPort scheme = some default)
    (hopen : '[' ∉ host.toList) :
    readAuthority scheme (authority host port) = some (host, port) ↔
      ':' ∉ host.toList ∧ (port = default ∨ port ≠ 80 ∧ port ≠ 443) := by
  have hhead : (authority host port).toList.head? ≠ some '[' := by
    rw [authority_toList]
    intro h
    have hmem := List.mem_of_head? h
    split at hmem
    · exact hopen hmem
    · rcases List.mem_append.mp hmem with hmem | hmem
      · exact hopen hmem
      · rcases List.mem_cons.mp hmem with hcolon | hdigit
        · exact absurd hcolon (by decide)
        · exact absurd (PyText.isDigit_toDigits hdigit).1 (by decide)
  by_cases hcolon : ':' ∈ host.toList
  · have hno := @readAuthority_ne_of_colon scheme _ host port hhead hcolon
    simp [hno, hcolon]
  · have hfree : ∀ c ∈ host.toList, decide (c ≠ ':') = true := by
      intro c hc
      simp only [decide_eq_true_eq]
      rintro rfl
      exact hcolon hc
    rw [readAuthority_plain hhead, authority_toList]
    by_cases hport : port = 443 ∨ port = 80
    · have hdrop : host.toList.dropWhile (· ≠ ':') = [] := by
        rw [List.dropWhile_eq_nil_iff]
        exact hfree
      have htake : host.toList.takeWhile (· ≠ ':') = host.toList := by
        rw [List.takeWhile_eq_self_iff]
        exact hfree
      rw [if_pos hport, hdrop, htake, readPort, hscheme]
      simp only [Option.map_some, String.ofList_toList, Option.some.injEq, Prod.mk.injEq, true_and]
      constructor
      · rintro rfl
        exact ⟨hcolon, .inl rfl⟩
      · rintro ⟨_, hsame | hother⟩
        · exact hsame.symm
        · omega
    · rw [if_neg hport, List.dropWhile_append_of_pos hfree, List.takeWhile_append_of_pos hfree,
        List.dropWhile_cons_of_neg (by decide), List.takeWhile_cons_of_neg (by decide), readPort_digits]
      simp only [List.append_nil, Option.map_some, String.ofList_toList, true_iff]
      exact ⟨hcolon, .inr (by omega)⟩

variable {W : Type}

theorem departs_of_mem {send : Hop → Shared W → Except Raised (Option Response) × Shared W} {env : Env W}
    {s : Session} {counts : Counts} {call : Call} {n : Nat} {v : Vars} {history : List Reply} {σ : Shared W}
    {leg : Leg} (h : leg ∈ (journey send env s counts call n v history σ).1) :
    ∃ v, leg.Departs env s call v := by
  induction n generalizing v history σ with
  | zero => cases h
  | succ n ih =>
      rcases journey_cases send env s counts call (n + 1) v history σ with
        hnil | ⟨first, rest, hlegs, hdeparts, hrest⟩
      · rw [hnil] at h
        cases h
      · rw [hlegs] at h
        rcases List.mem_cons.mp h with rfl | h
        · exact ⟨v, hdeparts⟩
        · rcases hrest with rfl | ⟨m, next, replies, τ, hm, _, rfl⟩
          · cases h
          · obtain rfl : m = n := by omega
            exact ih h

-- The legs of a request in either copy, and the authority of each: it denotes the
-- host and the port that the leg connects to exactly when the host is no IPv6
-- literal and the port is the scheme's default or neither 80 nor 443.
theorem authority_denotes_iff (env : Env W) (s : Session) (counts : Counts) (call : Call) (σ : Shared W)
    (hsplit : ∀ url u host, env.text.urlsplit url = .ok u → u.hostname = some host → '[' ∉ host.toList) :
    Sync.request env s counts call σ =
      (journey (Sync.doHop env s counts) env s counts call (counts.maxRedirects + 1).toNat
        (.start env s call) [] σ).2 ∧
    Async.request env s counts call σ =
      (journey (Async.doHop env s counts) env s counts call (counts.maxRedirects + 1).toNat
        (.start env s call) [] σ).2 ∧
    ∀ leg ∈ Sync.legs env s counts call σ ++ Async.legs env s counts call σ,
      leg.hop.scheme = "http" ∨ leg.hop.scheme = "https" →
      (readAuthority leg.hop.scheme leg.hop.authority = some (leg.hop.host, leg.hop.port) ↔
        ':' ∉ leg.hop.host.toList ∧ (some leg.hop.port = defaultPort leg.hop.scheme ∨
          leg.hop.port ≠ 80 ∧ leg.hop.port ≠ 443)) := by
  refine ⟨sync_request_eq env s counts call σ, async_request_eq env s counts call σ, ?_⟩
  intro leg hleg hscheme
  have hdeparts : ∃ v, leg.Departs env s call v := by
    rcases List.mem_append.mp hleg with hleg | hleg
    · exact departs_of_mem hleg
    · exact departs_of_mem hleg
  obtain ⟨v, hv⟩ := hdeparts
  obtain ⟨u, hu, hhost, _, _, hauthority⟩ := hv.url
  have hopen := hsplit v.url u leg.hop.host hu hhost
  rw [hauthority]
  rcases hscheme with hs | hs
  · have hd : defaultPort leg.hop.scheme = some 80 := by rw [hs]; decide
    rw [readAuthority_authority_iff hd hopen, hd, Option.some.injEq]
  · have hd : defaultPort leg.hop.scheme = some 443 := by rw [hs]; decide
    rw [readAuthority_authority_iff hd hopen, hd, Option.some.injEq]

def oddPort : Env (List RawResponse) := scripted fun _ => .ok ⟨"https", some "a.example", some 8443, "/", ""⟩

theorem odd_port_denoted : (Sync.legs oddPort { headers := [] } {}
    { method := "GET", url := "https://a.example:8443/" } (fresh [])).map
      (fun leg => readAuthority leg.hop.scheme leg.hop.authority) = [some ("a.example", 8443)] := by
  have hsplit : ∀ url u host, oddPort.text.urlsplit url = .ok u → u.hostname = some host →
      '[' ∉ host.toList := by
    intro url u host hu hhost
    cases hu
    cases hhost
    decide
  have hlegs : (Sync.legs oddPort { headers := [] } {}
      { method := "GET", url := "https://a.example:8443/" } (fresh [])).map
        (fun leg => (leg.hop.scheme, leg.hop.host, leg.hop.port)) = [("https", "a.example", 8443)] := by
    decide +kernel
  obtain ⟨leg, hone, hparts⟩ := List.map_eq_singleton_iff.mp hlegs
  simp only [Prod.mk.injEq] at hparts
  obtain ⟨hscheme, hhost, hport⟩ := hparts
  have hdenoted := ((authority_denotes_iff oddPort { headers := [] } {}
    { method := "GET", url := "https://a.example:8443/" } (fresh []) hsplit).2.2 leg
    (List.mem_append_left _ (by rw [hone]; exact List.mem_singleton_self leg)) (.inr hscheme)).mpr (by
      rw [hhost, hport]
      exact ⟨by decide, .inr (by decide)⟩)
  rw [hone, List.map_singleton, hdenoted, hhost, hport]

-- Port 80 is left out under https too, and the brackets of a literal always.
theorem authority_misread :
    (Sync.legs (scripted fun _ => .ok ⟨"https", some "a.example", some 80, "/", ""⟩) { headers := [] } {}
      { method := "GET", url := "https://a.example:80/" } (fresh [])).map (fun leg =>
        (leg.hop.host, leg.hop.port, leg.hop.authority, readAuthority leg.hop.scheme leg.hop.authority)) =
      [("a.example", 80, "a.example", some ("a.example", 443))] ∧
    (Sync.legs (scripted fun _ => .ok ⟨"https", some "::1", some 8443, "/", ""⟩) { headers := [] } {}
      { method := "GET", url := "https://[::1]:8443/" } (fresh [])).map (fun leg =>
        (leg.hop.host, leg.hop.port, leg.hop.authority, readAuthority leg.hop.scheme leg.hop.authority)) =
      [("::1", 8443, "::1:8443", none)] := by
  constructor
  · decide +kernel
  · decide +kernel

end NeverFox.Client.Copies
