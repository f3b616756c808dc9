import NeverFox.Client.Redirect
import NeverFox.Lib.PyUrl
import Mathlib.Data.List.Infix

namespace NeverFox.Client

open PyUrl (Support HostText IsScheme SplitResult urlsplit isUnreserved lowerName)

-- The proxy= or proxies= argument: a URL, or a dict of URLs.
inductive ProxyArg
  | none
  | url (text : String)
  | table (urls : Dict String String)

-- `get("https") or get("http") or get("all")`; an empty text is as good as none.
def ProxyArg.chosen : ProxyArg → Option String
  | .none => .none
  | .url text => if text = "" then .none else some text
  | .table urls => ["https", "http", "all"].findSome? fun key => (urls.get? key).filter (· ≠ "")

-- What `_parse_proxy` returns: `(scheme, host, port, user, pass)`. A URL may
-- have no host.
structure ProxyTuple where
  scheme : String
  host : Option String
  port : Nat
  user : String
  password : String
  deriving DecidableEq

def Proxy.tuple (p : Proxy) : ProxyTuple := ⟨p.scheme, some p.host, p.port, p.user, p.password⟩

def defaultPort (scheme : List Char) : Nat := if "socks".toList <+: scheme then 1080 else 8080

-- `_parse_proxy`. Reading `u.port` raises where urlsplit does not.
def parseProxy (support : Support) (arg : ProxyArg) : Except Exn (Option ProxyTuple) :=
  match arg.chosen with
  | none => .ok none
  | some text =>
      let url := if "://".toList <:+: text.toList then text.toList else "http://".toList ++ text.toList
      match urlsplit support url with
      | none => .error .valueError
      | some u =>
          let scheme := (if u.scheme = [] then "http".toList else u.scheme).map PyText.lowerChar
          match u.port with
          | none => .error .valueError
          | some port =>
              .ok (some ⟨String.ofList scheme, (u.hostname support).map String.ofList,
                (port.filter (· ≠ 0)).getD (defaultPort scheme), String.ofList (u.username.getD []),
                String.ofList (u.password.getD [])⟩)

-- The alphabet of base64, and `base64.b64encode`.
def b64Digit (n : Nat) : UInt8 :=
  UInt8.ofNat (if n < 26 then 65 + n else if n < 52 then 71 + n else if n < 62 then n - 4
    else if n = 62 then 43 else 47)

def b64encode : Bytes → Bytes
  | [] => []
  | [a] => [b64Digit (a.toNat / 4), b64Digit (a.toNat % 4 * 16), 61, 61]
  | [a, b] =>
      [b64Digit (a.toNat / 4), b64Digit (a.toNat % 4 * 16 + b.toNat / 16), b64Digit (b.toNat % 16 * 4), 61]
  | a :: b :: c :: rest =>
      b64Digit (a.toNat / 4) :: b64Digit (a.toNat % 4 * 16 + b.toNat / 16) ::
        b64Digit (b.toNat % 16 * 4 + c.toNat / 64) :: b64Digit (c.toNat % 64) :: b64encode rest

-- The call into the C library that `Transport.__init__` makes.
inductive NativeCall
  | direct (host : Bytes) (port timeout : Nat) (verify : Bool)
  | proxy (proxyHost : Bytes) (proxyPort : Nat) (host : Bytes) (port : Nat) (auth : Bytes)
      (timeout : Nat) (verify : Bool)
  | socks5 (proxyHost : Bytes) (proxyPort : Nat) (host : Bytes) (port : Nat) (user pass : Bytes)
      (timeout : Nat) (verify : Bool)
  deriving DecidableEq

def proxyAuth (user password : String) : Bytes :=
  if user = "" then [] else b64encode (utf8 s!"{user}:{password}")

-- Calling `encode` on a host that is None is an AttributeError.
def transportInit (host : String) (port timeout : Nat) (verify : Bool) (proxy : Option ProxyTuple) :
    Except Exn NativeCall :=
  match proxy with
  | none => .ok (.direct (utf8 host) port timeout verify)
  | some p =>
      match p.host with
      | none => .error .attributeError
      | some proxyHost =>
          if "socks".toList <+: p.scheme.toList then
            .ok (.socks5 (utf8 proxyHost) p.port (utf8 host) port (utf8 p.user) (utf8 p.password) timeout
              verify)
          else
            .ok (.proxy (utf8 proxyHost) p.port (utf8 host) port (proxyAuth p.user p.password) timeout verify)

-- The authority of a proxy, with its credentials percent-encoded, and its URL.
def proxyNetloc (user password : String) (host : HostText) (port : Nat) : List Char :=
  PyUrl.netlocText (PyUrl.quote user.toList) (PyUrl.quote password.toList) host (Nat.toDigits 10 port)

def proxyUrl (scheme user password : String) (host : HostText) (port : Nat) : String :=
  String.ofList (PyUrl.urlText scheme.toList (PyUrl.quote user.toList) (PyUrl.quote password.toList) host
    (Nat.toDigits 10 port))

-- The handshake gets the address of the proxy and these credentials. Basic
-- authentication with neither of them may as well be left out.
def NativeCall.Passes (p : Proxy) : NativeCall → Prop
  | .direct .. => False
  | .proxy proxyHost proxyPort _ _ auth _ _ =>
      proxyHost = utf8 p.host ∧ proxyPort = p.port ∧
        (auth = b64encode (utf8 s!"{p.user}:{p.password}") ∨ p.user = "" ∧ p.password = "" ∧ auth = [])
  | .socks5 proxyHost proxyPort _ _ user pass _ _ =>
      proxyHost = utf8 p.host ∧ proxyPort = p.port ∧ user = utf8 p.user ∧ pass = utf8 p.password

-- The URL comes back as the proxy it was written for, and every connection
-- through it hands on what was written.
def Delivered (support : Support) (scheme user password : String) (host : HostText) (port : Nat) : Prop :=
  let p : Proxy := ⟨scheme, String.ofList host.text, port, user, password⟩
  parseProxy support (.url (proxyUrl scheme user password host port)) = .ok (some p.tuple) ∧
    ∀ (target : String) (targetPort timeout : Nat) (verify : Bool),
      ∃ call, transportInit target targetPort timeout verify (some p.tuple) = .ok call ∧ call.Passes p

theorem b64encode_ne_nil {data : Bytes} (h : data ≠ []) : b64encode data ≠ [] := by
  intro hnil
  unfold b64encode at hnil
  split at hnil
  · exact h rfl
  · cases hnil
  · cases hnil
  · cases hnil

-- The tuple has the credentials as they stand in the URL, escapes and all.
theorem parseProxy_written {support : Support} {scheme user password : String} {host : HostText} {port : Nat}
    (hscheme : IsScheme scheme.toList) (hhost : host.Valid support) :
    parseProxy support (.url (proxyUrl scheme user password host port)) =
      if PyUrl.netlocAllowed support.nfkc (proxyNetloc user password host port) ∧ port ≤ 65535 then
        .ok (some ⟨PyText.lower scheme, some (String.ofList (lowerName support host.text)),
          if port = 0 then defaultPort (scheme.toList.map PyText.lowerChar) else port,
          String.ofList (PyUrl.quote user.toList), String.ofList (PyUrl.quote password.toList)⟩)
      else .error .valueError := by
  have hparts : PyUrl.Parts support (PyUrl.quote user.toList) (PyUrl.quote password.toList) host
      (Nat.toDigits 10 port) :=
    ⟨PyUrl.isPlain_quote, PyUrl.isPlain_quote, hhost, PyUrl.isAsciiDigit_toDigits⟩
  have hchosen : (ProxyArg.url (proxyUrl scheme user password host port)).chosen =
      some (proxyUrl scheme user password host port) := by
    rw [ProxyArg.chosen, if_neg]
    intro hempty
    have htext := congrArg String.toList hempty
    rw [proxyUrl, String.toList_ofList, PyUrl.urlText] at htext
    simp at htext
  have hfound : "://".toList <:+: (proxyUrl scheme user password host port).toList := by
    rw [proxyUrl, String.toList_ofList, PyUrl.urlText]
    exact ⟨scheme.toList, PyUrl.netlocText (PyUrl.quote user.toList) (PyUrl.quote password.toList) host
      (Nat.toDigits 10 port), by simp [List.append_assoc]⟩
  have hne : scheme.toList.map PyText.lowerChar ≠ [] := by
    intro hnil
    have hempty := List.map_eq_nil_iff.mp hnil
    have hfirst := hscheme.1
    rw [hempty] at hfirst
    cases hfirst
  have hlower : (scheme.toList.map PyText.lowerChar).map PyText.lowerChar =
      scheme.toList.map PyText.lowerChar := by
    rw [List.map_map]
    exact List.map_congr_left fun c hc => PyText.lowerChar_lowerChar (hscheme.ascii c hc)
  rw [parseProxy, hchosen, PyText.lower_ascii hscheme.ascii]
  dsimp only
  rw [if_pos hfound, proxyUrl, String.toList_ofList, PyUrl.urlsplit_urlText hscheme hparts, ← proxyNetloc]
  by_cases hallowed : PyUrl.netlocAllowed support.nfkc (proxyNetloc user password host port)
  · rw [if_pos hallowed, proxyNetloc]
    dsimp only
    rw [if_neg hne, hlower, PyUrl.port_netloc hparts, PyUrl.hostname_netloc hparts, SplitResult.username,
      SplitResult.password, PyUrl.userinfo_netloc hparts]
    by_cases hport : port ≤ 65535
    · rw [if_pos hport, if_pos ⟨hallowed, hport⟩]
      by_cases hzero : port = 0
      · subst hzero
        rfl
      · simp [Option.filter_some, hzero]
    · rw [if_neg hport, if_neg fun h => hport h.2]
  · rw [if_neg hallowed, if_neg fun h => hallowed h.1]

theorem lower_eq_iff {text : String} (h : ∀ c ∈ text.toList, c.toNat < 0x80) :
    PyText.lower text = text ↔ ∀ c ∈ text.toList, PyText.lowerChar c = c := by
  rw [PyText.lower_ascii h, ← String.toList_inj, String.toList_ofList]
  conv_lhs => rhs; rw [← List.map_id text.toList]
  exact List.map_inj_left

theorem quote_eq_iff {text : String} :
    String.ofList (PyUrl.quote text.toList) = text ↔ ∀ c ∈ text.toList, isUnreserved c := by
  rw [← PyUrl.quote_eq_iff, ← String.toList_inj, String.toList_ofList]

theorem defaultPort_ne_zero (scheme : List Char) : defaultPort scheme ≠ 0 := by
  unfold defaultPort
  split <;> decide

theorem parsed_iff {support : Support} {scheme user password : String} {host : HostText} {port : Nat}
    (hscheme : IsScheme scheme.toList) (hhost : host.Valid support) :
    parseProxy support (.url (proxyUrl scheme user password host port)) =
        .ok (some (Proxy.tuple ⟨scheme, String.ofList host.text, port, user, password⟩)) ↔
      (∀ c ∈ user.toList, isUnreserved c) ∧ (∀ c ∈ password.toList, isUnreserved c) ∧ 0 < port ∧
        port ≤ 65535 ∧ (∀ c ∈ scheme.toList, PyText.lowerChar c = c) ∧
        support.lower (host.text.takeWhile (· ≠ '%')) = host.text.takeWhile (· ≠ '%') ∧
        PyUrl.netlocAllowed support.nfkc (proxyNetloc user password host port) := by
  have hdefault := defaultPort_ne_zero (scheme.toList.map PyText.lowerChar)
  rw [parseProxy_written hscheme hhost, ← lower_eq_iff hscheme.ascii, ← PyUrl.lowerName_eq_iff,
    ← quote_eq_iff, ← quote_eq_iff]
  by_cases hwhen : PyUrl.netlocAllowed support.nfkc (proxyNetloc user password host port) ∧ port ≤ 65535
  · rw [if_pos hwhen]
    by_cases hzero : port = 0
    · simp [Proxy.tuple, hzero, hdefault]
    · rw [if_neg hzero]
      simp only [Proxy.tuple, Except.ok.injEq, Option.some.injEq, ProxyTuple.mk.injEq, String.ofList_inj,
        true_and, hwhen.1, hwhen.2, Nat.pos_of_ne_zero hzero, and_true]
      tauto
  · rw [if_neg hwhen]
    constructor
    · intro h
      cases h
    · rintro ⟨_, _, _, hport, _, _, hallowed⟩
      exact absurd ⟨hallowed, hport⟩ hwhen

-- Only a password without a user name is lost on the way to the handshake.
theorem passes_iff (p : Proxy) (target : String) (targetPort timeout : Nat) (verify : Bool) :
    (∃ call, transportInit target targetPort timeout verify (some p.tuple) = .ok call ∧ call.Passes p) ↔
      "socks".toList <+: p.scheme.toList ∨ p.user ≠ "" ∨ p.password = "" := by
  unfold transportInit Proxy.tuple
  dsimp only
  by_cases hsocks : "socks".toList <+: p.scheme.toList
  · rw [if_pos hsocks]
    exact ⟨fun _ => .inl hsocks, fun _ => ⟨_, rfl, rfl, rfl, rfl, rfl⟩⟩
  rw [if_neg hsocks]
  have hcolon : b64encode (utf8 s!"{p.user}:{p.password}") ≠ [] := by
    have hsplit : utf8 s!"{p.user}:{p.password}" = utf8 p.user ++ (utf8 ":" ++ utf8 p.password) := by
      simp [utf8, toString]
    have hcolon : utf8 ":" = [58] := by decide
    apply b64encode_ne_nil
    rw [hsplit, hcolon]
    simp
  constructor
  · rintro ⟨call, hcall, hpasses⟩
    obtain rfl := Except.ok.inj hcall
    obtain ⟨_, _, hauth | ⟨_, hpass, _⟩⟩ := hpasses
    · refine .inr (.inl ?_)
      intro huser
      rw [proxyAuth, if_pos huser] at hauth
      exact hcolon hauth.symm
    · exact .inr (.inr hpass)
  · intro hwhen
    refine ⟨_, rfl, rfl, rfl, ?_⟩
    by_cases huser : p.user = ""
    · have hpass : p.password = "" := by
        rcases hwhen with h | h | h
        · exact absurd h hsocks
        · exact absurd huser h
        · exact h
      exact .inr ⟨huser, hpass, by rw [proxyAuth, if_pos huser]⟩
    · exact .inl (by rw [proxyAuth, if_neg huser])

-- A name or a password comes through exactly if nothing in it had to be
-- escaped: nobody takes the escapes out again.
theorem credentials_delivered_iff (support : Support) (scheme user password : String) (host : HostText)
    (port : Nat) (hscheme : IsScheme scheme.toList) (hhost : host.Valid support) :
    Delivered support scheme user password host port ↔
      ((∀ c ∈ user.toList, isUnreserved c) ∧ (∀ c ∈ password.toList, isUnreserved c) ∧ 0 < port ∧
        port ≤ 65535 ∧ (∀ c ∈ scheme.toList, PyText.lowerChar c = c) ∧
        support.lower (host.text.takeWhile (· ≠ '%')) = host.text.takeWhile (· ≠ '%') ∧
        PyUrl.netlocAllowed support.nfkc (proxyNetloc user password host port)) ∧
      ("socks".toList <+: scheme.toList ∨ user ≠ "" ∨ password = "") := by
  unfold Delivered
  dsimp only
  rw [parsed_iff hscheme hhost]
  apply and_congr_right
  intro _
  constructor
  · intro hcalls
    exact (passes_iff _ "" 0 0 true).mp (hcalls "" 0 0 true)
  · intro hauth target targetPort timeout verify
    exact (passes_iff _ target targetPort timeout verify).mpr hauth

-- Nothing here is beyond ASCII.
def asciiSupport : Support := ⟨fun _ => true, id, fun text => text.map PyText.lowerChar⟩

theorem plain_credentials_delivered :
    Delivered asciiSupport "http" "user" "pass" (.name "proxy".toList) 8080 := by
  have hscheme : IsScheme "http".toList := ⟨by decide, List.all_eq_true.mp (by decide)⟩
  have hlower : ∀ c ∈ "http".toList, PyText.lowerChar c = c := (lower_eq_iff hscheme.ascii).mp (by decide)
  exact (credentials_delivered_iff asciiSupport "http" "user" "pass" (.name "proxy".toList) 8080 hscheme
    ⟨by decide, List.all_eq_true.mp (by decide)⟩).mpr
    ⟨⟨List.all_eq_true.mp (by decide), List.all_eq_true.mp (by decide), by decide, by decide, hlower,
      by decide, by decide⟩, .inr (.inl (by decide))⟩

-- The password p@ss is sent as p%40ss.
theorem escaped_password_kept_escaped :
    parseProxy asciiSupport (.url (proxyUrl "http" "user" "p@ss" (.name "proxy".toList) 8080)) =
        .ok (some ⟨"http", some "proxy", 8080, "user", "p%40ss"⟩) ∧
      ¬Delivered asciiSupport "http" "user" "p@ss" (.name "proxy".toList) 8080 := by
  have hscheme : IsScheme "http".toList := ⟨by decide, List.all_eq_true.mp (by decide)⟩
  have hhost : HostText.Valid asciiSupport (.name "proxy".toList) :=
    ⟨by decide, List.all_eq_true.mp (by decide)⟩
  have hparsed : parseProxy asciiSupport (.url (proxyUrl "http" "user" "p@ss" (.name "proxy".toList) 8080)) =
      .ok (some ⟨"http", some "proxy", 8080, "user", "p%40ss"⟩) := by
    rw [parseProxy_written hscheme hhost]
    decide
  refine ⟨hparsed, ?_⟩
  intro hdelivered
  have hsame := hdelivered.1
  rw [hparsed] at hsame
  revert hsame
  decide

end NeverFox.Client
