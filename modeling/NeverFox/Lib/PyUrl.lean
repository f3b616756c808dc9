import NeverFox.Lib.PyText

-- What urllib.parse does with the part of a URL that names a server.
namespace PyUrl

-- `str.partition`: what is in front of the separator, whether there is one, and
-- what is behind it.
def partition (sep : Char) (text : List Char) : List Char × Bool × List Char :=
  (text.takeWhile (· ≠ sep), sep ∈ text, (text.dropWhile (· ≠ sep)).drop 1)

-- `str.rpartition`, at the last separator.
def rpartition (sep : Char) (text : List Char) : List Char × Bool × List Char :=
  if sep ∈ text then
    (((text.reverse.dropWhile (· ≠ sep)).drop 1).reverse, true, (text.reverse.takeWhile (· ≠ sep)).reverse)
  else ([], false, text)

def isAsciiAlpha (c : Char) : Bool := 'a' ≤ c ∧ c ≤ 'z' ∨ 'A' ≤ c ∧ c ≤ 'Z'

def isAsciiDigit (c : Char) : Bool := '0' ≤ c ∧ c ≤ '9'

def isSchemeChar (c : Char) : Bool := isAsciiAlpha c || isAsciiDigit c || c ∈ ['+', '-', '.']

-- The characters that `quote` leaves with no others declared safe.
def isUnreserved (c : Char) : Bool := isAsciiAlpha c || isAsciiDigit c || c ∈ ['_', '.', '-', '~']

def hexDigit (n : Nat) : Char := Char.ofNat (if n < 10 then 48 + n else 55 + n)

def percent (b : UInt8) : List Char := ['%', hexDigit (b.toNat / 16), hexDigit (b.toNat % 16)]

-- `quote(text, safe="")`.
def quote (text : List Char) : List Char :=
  text.flatMap fun c => if isUnreserved c then [c] else (String.utf8EncodeChar c).flatMap percent

-- What `urlsplit` takes from elsewhere: whether ipaddress accepts a literal in
-- brackets, and the NFKC form and the lower case of any text.
structure Support where
  bracketed : List Char → Bool
  nfkc : List Char → List Char
  lower : List Char → List Char

structure SplitResult where
  scheme : List Char
  netloc : List Char
  deriving DecidableEq

def isC0OrSpace (c : Char) : Bool := c.toNat ≤ 0x20

def splitScheme (url : List Char) : List Char × List Char :=
  let (before, found, rest) := partition ':' url
  if found && (before.head?.map isAsciiAlpha).getD false && before.all isSchemeChar then
    (before.map PyText.lowerChar, rest)
  else ([], url)

def splitNetloc : List Char → List Char
  | '/' :: '/' :: rest => rest.takeWhile (· ∉ ['/', '?', '#'])
  | _ => []

-- `_checknetloc`.
def netlocAllowed (nfkc : List Char → List Char) (netloc : List Char) : Bool :=
  netloc.all (·.toNat < 128) ||
    let n := netloc.filter (· ∉ ['@', ':', '#', '?'])
    nfkc n = n || (nfkc n).all (· ∉ ['/', '?', '#', '@', ':'])

-- `urlsplit`; none is a ValueError.
def urlsplit (support : Support) (url : List Char) : Option SplitResult :=
  let url := (url.dropWhile isC0OrSpace).filter (· ∉ ['\t', '\r', '\n'])
  let (scheme, rest) := splitScheme url
  let netloc := splitNetloc rest
  if decide ('[' ∈ netloc) ≠ decide (']' ∈ netloc) then none
  else if '[' ∈ netloc ∧ support.bracketed (partition ']' (partition '[' netloc).2.2).1 = false then none
  else if netlocAllowed support.nfkc netloc = false then none
  else some ⟨scheme, netloc⟩

-- A zone behind a percent sign keeps its case.
def lowerName (support : Support) (text : List Char) : List Char :=
  let (name, zone, rest) := partition '%' text
  support.lower name ++ if zone then '%' :: rest else []

namespace SplitResult

-- `_userinfo`.
def userinfo (r : SplitResult) : Option (List Char × Option (List Char)) :=
  let (userinfo, found, _) := rpartition '@' r.netloc
  if found then
    let (username, hasPassword, password) := partition ':' userinfo
    some (username, if hasPassword then some password else none)
  else none

-- `_hostinfo`: the host and the port as they are written.
def hostinfo (r : SplitResult) : List Char × List Char :=
  let hostinfo := (rpartition '@' r.netloc).2.2
  let (_, bracket, bracketed) := partition '[' hostinfo
  if bracket then
    let (hostname, _, port) := partition ']' bracketed
    (hostname, (partition ':' port).2.2)
  else
    let (hostname, _, port) := partition ':' hostinfo
    (hostname, port)

def username (r : SplitResult) : Option (List Char) := r.userinfo.map Prod.fst

def password (r : SplitResult) : Option (List Char) := r.userinfo.bind Prod.snd

def hostname (support : Support) (r : SplitResult) : Option (List Char) :=
  if r.hostinfo.1 = [] then none else some (lowerName support r.hostinfo.1)

-- `port`; the outer none is a ValueError.
def port (r : SplitResult) : Option (Option Nat) :=
  let text := r.hostinfo.2
  if text = [] then some none
  else if text.all isAsciiDigit ∧ PyText.ofDigits 10 text ≤ 65535 then some (some (PyText.ofDigits 10 text))
  else none

end SplitResult

section Partition

variable {sep : Char} {a b : List Char}

theorem takeWhile_of_notMem (h : sep ∉ a) : a.takeWhile (· ≠ sep) = a := by
  rw [List.takeWhile_eq_self_iff]
  intro c hc
  simp only [decide_eq_true_eq]
  rintro rfl
  exact h hc

theorem dropWhile_of_notMem (h : sep ∉ a) : a.dropWhile (· ≠ sep) = [] := by
  rw [List.dropWhile_eq_nil_iff]
  intro c hc
  simp only [decide_eq_true_eq]
  rintro rfl
  exact h hc

theorem partition_absent (h : sep ∉ a) : partition sep a = (a, false, []) := by
  rw [partition, takeWhile_of_notMem h, dropWhile_of_notMem h]
  simp [h]

theorem takeWhile_separated (h : sep ∉ a) : (a ++ sep :: b).takeWhile (· ≠ sep) = a := by
  rw [List.takeWhile_append, takeWhile_of_notMem h]
  simp

theorem dropWhile_separated (h : sep ∉ a) : (a ++ sep :: b).dropWhile (· ≠ sep) = sep :: b := by
  rw [List.dropWhile_append, dropWhile_of_notMem h]
  simp

theorem partition_separated (h : sep ∉ a) : partition sep (a ++ sep :: b) = (a, true, b) := by
  rw [partition, takeWhile_separated h, dropWhile_separated h]
  simp

theorem rpartition_separated (h : sep ∉ b) : rpartition sep (a ++ sep :: b) = (a, true, b) := by
  have hrev : (a ++ sep :: b).reverse = b.reverse ++ sep :: a.reverse := by simp
  have hb : sep ∉ b.reverse := by simpa using h
  rw [rpartition, if_pos (by simp), hrev, takeWhile_separated hb, dropWhile_separated hb]
  simp

end Partition

-- A character that the parts of an authority can have: `urlsplit` takes it for
-- nothing else and does not remove it.
def isPlain (c : Char) : Bool := c ∉ ['/', '?', '#', '@', ':', '[', ']', '\t', '\r', '\n']

-- A host as it stands in a URL.
inductive HostText
  | name (text : List Char)
  | literal (text : List Char)
  deriving DecidableEq

namespace HostText

def text : HostText → List Char
  | .name text | .literal text => text

def written : HostText → List Char
  | .name text => text
  | .literal text => '[' :: text ++ [']']

-- A literal may have colons, and is one that ipaddress accepts.
def Valid (support : Support) : HostText → Prop
  | .name text => text ≠ [] ∧ ∀ c ∈ text, isPlain c
  | .literal text => text ≠ [] ∧ (∀ c ∈ text, isPlain c || c = ':') ∧ support.bracketed text

end HostText

-- The parts of an authority, written one behind the other.
def netlocText (user password : List Char) (host : HostText) (port : List Char) : List Char :=
  user ++ ':' :: (password ++ '@' :: (host.written ++ ':' :: port))

def urlText (scheme user password : List Char) (host : HostText) (port : List Char) : List Char :=
  scheme ++ ':' :: '/' :: '/' :: netlocText user password host port

def IsScheme (scheme : List Char) : Prop :=
  (scheme.head?.map isAsciiAlpha).getD false = true ∧ ∀ c ∈ scheme, isSchemeChar c

-- The characters of an authority, and of a whole URL as it is put together.
def isNetlocChar (c : Char) : Bool := isPlain c || c ∈ ['@', ':', '[', ']']

theorem isAsciiAlpha_range {c : Char} (h : isAsciiAlpha c) : 65 ≤ c.toNat ∧ c.toNat ≤ 122 := by
  have hle : ∀ a b : Char, a ≤ b → a.toNat ≤ b.toNat := fun a b h => h
  have hrange : 'a' ≤ c ∧ c ≤ 'z' ∨ 'A' ≤ c ∧ c ≤ 'Z' := by simpa [isAsciiAlpha] using h
  rcases hrange with ⟨hlow, hhigh⟩ | ⟨hlow, hhigh⟩
  · have h1 : 97 ≤ c.toNat := hle _ _ hlow
    have h2 : c.toNat ≤ 122 := hle _ _ hhigh
    omega
  · have h1 : 65 ≤ c.toNat := hle _ _ hlow
    have h2 : c.toNat ≤ 90 := hle _ _ hhigh
    omega

theorem isAsciiDigit_range {c : Char} (h : isAsciiDigit c) : 48 ≤ c.toNat ∧ c.toNat ≤ 57 := by
  have hle : ∀ a b : Char, a ≤ b → a.toNat ≤ b.toNat := fun a b h => h
  have hrange : '0' ≤ c ∧ c ≤ '9' := by simpa [isAsciiDigit] using h
  exact ⟨hle _ _ hrange.1, hle _ _ hrange.2⟩

theorem isPlain_of_unreserved {c : Char} (h : isUnreserved c) : isPlain c := by
  rw [isPlain, decide_eq_true_eq]
  intro hm
  simp only [List.mem_cons, List.not_mem_nil, or_false] at hm
  rcases hm with rfl | rfl | rfl | rfl | rfl | rfl | rfl | rfl | rfl | rfl <;> revert h <;> decide

theorem isPlain_of_digit {c : Char} (h : isAsciiDigit c) : isPlain c := by
  apply isPlain_of_unreserved
  rw [isUnreserved, h, Bool.or_true, Bool.true_or]

theorem isNetlocChar_ne {c : Char} (h : isNetlocChar c) : c ∉ ['/', '?', '#'] ∧ c ∉ ['\t', '\r', '\n'] := by
  constructor
  · intro hm
    simp only [List.mem_cons, List.not_mem_nil, or_false] at hm
    rcases hm with rfl | rfl | rfl <;> revert h <;> decide
  · intro hm
    simp only [List.mem_cons, List.not_mem_nil, or_false] at hm
    rcases hm with rfl | rfl | rfl <;> revert h <;> decide

theorem isSchemeChar_range {c : Char} (h : isSchemeChar c) : 0x20 < c.toNat ∧ c ≠ ':' := by
  constructor
  · simp only [isSchemeChar, Bool.or_eq_true, decide_eq_true_eq, List.mem_cons, List.not_mem_nil,
      or_false] at h
    rcases h with (h | h) | rfl | rfl | rfl
    · have := isAsciiAlpha_range h
      omega
    · have := isAsciiDigit_range h
      omega
    · decide
    · decide
    · decide
  · rintro rfl
    revert h
    decide

theorem IsScheme.ascii {scheme : List Char} (h : IsScheme scheme) : ∀ c ∈ scheme, c.toNat < 0x80 := by
  intro c hc
  have hchar := h.2 c hc
  simp only [isSchemeChar, Bool.or_eq_true, decide_eq_true_eq, List.mem_cons, List.not_mem_nil,
    or_false] at hchar
  rcases hchar with (hchar | hchar) | rfl | rfl | rfl
  · have := isAsciiAlpha_range hchar
    omega
  · have := isAsciiDigit_range hchar
    omega
  · decide
  · decide
  · decide

variable {support : Support} {scheme user password port : List Char} {host : HostText}

-- What each part of an authority is made of.
structure Parts (support : Support) (user password : List Char) (host : HostText) (port : List Char) :
    Prop where
  user : ∀ c ∈ user, isPlain c
  password : ∀ c ∈ password, isPlain c
  host : host.Valid support
  port : ∀ c ∈ port, isAsciiDigit c

theorem notMem_of_plain {text : List Char} (h : ∀ c ∈ text, isPlain c) {sep : Char}
    (hsep : isPlain sep = false) : sep ∉ text := by
  intro hm
  rw [h sep hm] at hsep
  cases hsep

theorem Parts.port_plain (h : Parts support user password host port) : ∀ c ∈ port, isPlain c :=
  fun c hc => isPlain_of_digit (h.port c hc)

theorem Parts.netloc_chars (h : Parts support user password host port) :
    ∀ c ∈ netlocText user password host port, isNetlocChar c := by
  have hplain : ∀ text : List Char, (∀ c ∈ text, isPlain c) → ∀ c ∈ text, isNetlocChar c = true := by
    intro text ht c hc
    rw [isNetlocChar, ht c hc]
    rfl
  have hhost : ∀ c ∈ host.written, isNetlocChar c = true := by
    cases host with
    | name text => exact hplain text h.host.2
    | literal text =>
        intro c hc
        simp only [HostText.written, List.cons_append, List.mem_cons, List.mem_append, List.not_mem_nil,
          or_false] at hc
        rcases hc with rfl | hc | rfl
        · decide
        · have hlit := h.host.2.1 c hc
          unfold isNetlocChar
          simp only [Bool.or_eq_true, decide_eq_true_eq] at hlit ⊢
          rcases hlit with hlit | rfl
          · exact .inl hlit
          · exact .inr (by decide)
        · decide
  intro c hc
  simp only [netlocText, List.mem_append, List.mem_cons] at hc
  rcases hc with hc | rfl | hc | rfl | hc | rfl | hc
  · exact hplain _ h.user c hc
  · decide
  · exact hplain _ h.password c hc
  · decide
  · exact hhost c hc
  · decide
  · exact hplain _ h.port_plain c hc

theorem written_notMem_at (h : host.Valid support) : '@' ∉ host.written := by
  cases host with
  | name text => exact notMem_of_plain h.2 (by decide)
  | literal text =>
      intro hm
      simp only [HostText.written, List.cons_append, List.mem_cons, List.mem_append, List.not_mem_nil,
        or_false] at hm
      rcases hm with hm | hm | hm
      · exact absurd hm (by decide)
      · exact absurd (h.2.1 _ hm) (by decide)
      · exact absurd hm (by decide)

theorem Parts.notMem_at (h : Parts support user password host port) : '@' ∉ host.written ++ ':' :: port := by
  simp only [List.mem_append, List.mem_cons, not_or]
  exact ⟨written_notMem_at h.host, by decide, notMem_of_plain h.port_plain (by decide)⟩

theorem rpartition_netloc (h : Parts support user password host port) :
    rpartition '@' (netlocText user password host port) =
      (user ++ ':' :: password, true, host.written ++ ':' :: port) := by
  have hshape : netlocText user password host port =
      (user ++ ':' :: password) ++ '@' :: (host.written ++ ':' :: port) := by
    simp [netlocText]
  rw [hshape, rpartition_separated h.notMem_at]

-- Only a literal has brackets, and it has both.
theorem brackets_netloc (h : Parts support user password host port) :
    (∃ text, host = .name text ∧ '[' ∉ netlocText user password host port ∧
      ']' ∉ netlocText user password host port) ∨
    ∃ text, host = .literal text ∧ '[' ∈ netlocText user password host port ∧
      ']' ∈ netlocText user password host port ∧
      (partition ']' (partition '[' (netlocText user password host port)).2.2).1 = text := by
  have hfree : ∀ sep : Char, isPlain sep = false → sep ∉ user ∧ sep ∉ password ∧ sep ∉ port :=
    fun sep hsep => ⟨notMem_of_plain h.user hsep, notMem_of_plain h.password hsep,
      notMem_of_plain h.port_plain hsep⟩
  obtain ⟨huser, hpass, hport⟩ := hfree '[' (by decide)
  obtain ⟨huser', hpass', hport'⟩ := hfree ']' (by decide)
  cases host with
  | name text =>
      have hopen := notMem_of_plain h.host.2 (show isPlain '[' = false by decide)
      have hclose := notMem_of_plain h.host.2 (show isPlain ']' = false by decide)
      refine .inl ⟨text, rfl, ?_, ?_⟩
      · simp [netlocText, HostText.written, huser, hpass, hport, hopen]
      · simp [netlocText, HostText.written, huser', hpass', hport', hclose]
  | literal text =>
      refine .inr ⟨text, rfl, by simp [netlocText, HostText.written], by simp [netlocText, HostText.written], ?_⟩
      have hshape : netlocText user password (.literal text) port =
          (user ++ ':' :: (password ++ ['@'])) ++ '[' :: (text ++ ']' :: ':' :: port) := by
        simp [netlocText, HostText.written]
      have hbefore : '[' ∉ user ++ ':' :: (password ++ ['@']) := by simp [huser, hpass]
      have hclose : ']' ∉ text := by
        intro hm
        exact absurd (h.host.2.1 _ hm) (by decide)
      rw [hshape, partition_separated hbefore, partition_separated hclose]

-- A URL put together from its parts is taken apart again, unless its authority
-- fails the check of its NFKC form.
theorem urlsplit_urlText (hscheme : IsScheme scheme) (h : Parts support user password host port) :
    urlsplit support (urlText scheme user password host port) =
      if netlocAllowed support.nfkc (netlocText user password host port) then
        some ⟨scheme.map PyText.lowerChar, netlocText user password host port⟩
      else none := by
  have hnetloc := h.netloc_chars
  generalize hn : netlocText user password host port = netloc at hnetloc
  have hdrop : (scheme ++ ':' :: '/' :: '/' :: netloc).dropWhile isC0OrSpace =
      scheme ++ ':' :: '/' :: '/' :: netloc := by
    cases scheme with
    | nil => cases hscheme.1
    | cons c rest =>
        have hfirst := (isSchemeChar_range (hscheme.2 c List.mem_cons_self)).1
        have hkept : ¬isC0OrSpace c = true := by
          simp only [isC0OrSpace, decide_eq_true_eq]
          omega
        rw [List.cons_append, List.dropWhile_cons_of_neg hkept]
  have hfilter : (scheme ++ ':' :: '/' :: '/' :: netloc).filter (· ∉ ['\t', '\r', '\n']) =
      scheme ++ ':' :: '/' :: '/' :: netloc := by
    rw [List.filter_eq_self]
    intro c hc
    rw [decide_eq_true_eq]
    simp only [List.mem_append, List.mem_cons] at hc
    rcases hc with hc | rfl | rfl | rfl | hc
    · have hbig := (isSchemeChar_range (hscheme.2 c hc)).1
      intro hm
      simp only [List.mem_cons, List.not_mem_nil, or_false] at hm
      rcases hm with rfl | rfl | rfl <;> revert hbig <;> decide
    · decide
    · decide
    · decide
    · exact (isNetlocChar_ne (hnetloc c hc)).2
  have hsplit : splitScheme (scheme ++ ':' :: '/' :: '/' :: netloc) =
      (scheme.map PyText.lowerChar, '/' :: '/' :: netloc) := by
    have hcolon : ':' ∉ scheme := fun hm => (isSchemeChar_range (hscheme.2 _ hm)).2 rfl
    rw [splitScheme, partition_separated hcolon]
    have hall : scheme.all isSchemeChar = true := List.all_eq_true.mpr hscheme.2
    simp [hscheme.1, hall]
  have hloc : splitNetloc ('/' :: '/' :: netloc) = netloc := by
    rw [splitNetloc, List.takeWhile_eq_self_iff]
    intro c hc
    rw [decide_eq_true_eq]
    exact (isNetlocChar_ne (hnetloc c hc)).1
  have hbrackets := brackets_netloc h
  rw [hn] at hbrackets
  rw [urlText, hn, urlsplit, hdrop, hfilter, hsplit]
  dsimp only
  rw [hloc]
  rcases hbrackets with ⟨text, _, hopen, hclose⟩ | ⟨text, rfl, hopen, hclose, hinner⟩
  · by_cases hallowed : netlocAllowed support.nfkc netloc <;> simp [hopen, hclose, hallowed]
  · rw [hinner, h.host.2.2]
    by_cases hallowed : netlocAllowed support.nfkc netloc <;> simp [hopen, hclose, hallowed]

theorem userinfo_netloc (h : Parts support user password host port) :
    SplitResult.userinfo ⟨scheme, netlocText user password host port⟩ = some (user, some password) := by
  have hcolon : ':' ∉ user := notMem_of_plain h.user (by decide)
  rw [SplitResult.userinfo, rpartition_netloc h]
  dsimp only
  rw [if_pos rfl, partition_separated hcolon]
  rfl

theorem hostinfo_netloc (h : Parts support user password host port) :
    SplitResult.hostinfo ⟨scheme, netlocText user password host port⟩ = (host.text, port) := by
  rw [SplitResult.hostinfo, rpartition_netloc h]
  dsimp only
  cases host with
  | name text =>
      have hopen : '[' ∉ text ++ ':' :: port := by
        simp only [List.mem_append, List.mem_cons, not_or]
        exact ⟨notMem_of_plain h.host.2 (by decide), by decide, notMem_of_plain h.port_plain (by decide)⟩
      have hcolon : ':' ∉ text := notMem_of_plain h.host.2 (by decide)
      rw [HostText.written, partition_absent hopen]
      dsimp only
      rw [if_neg (by decide), partition_separated hcolon]
      rfl
  | literal text =>
      have hclose : ']' ∉ text := fun hm => absurd (h.host.2.1 _ hm) (by decide)
      have hshape : HostText.written (.literal text) ++ ':' :: port =
          [] ++ '[' :: (text ++ ']' :: ([] ++ ':' :: port)) := by
        simp [HostText.written]
      rw [hshape, partition_separated List.not_mem_nil]
      dsimp only
      rw [if_pos rfl, partition_separated hclose]
      dsimp only
      rw [partition_separated List.not_mem_nil]
      rfl

theorem hostname_netloc (h : Parts support user password host port) :
    SplitResult.hostname support ⟨scheme, netlocText user password host port⟩ =
      some (lowerName support host.text) := by
  have hne : host.text ≠ [] := by
    cases host with
    | name text => exact h.host.1
    | literal text => exact h.host.1
  rw [SplitResult.hostname, hostinfo_netloc h, if_neg hne]

theorem isAsciiDigit_toDigits {n : Nat} : ∀ c ∈ Nat.toDigits 10 n, isAsciiDigit c := by
  intro c hc
  have hdigit := Nat.isDigit_of_mem_toDigits (by decide) (by decide) hc
  have hrange : '0' ≤ c ∧ c ≤ '9' := Char.isDigit_iff_toNat.mp hdigit
  simpa [isAsciiDigit] using hrange

theorem port_netloc {n : Nat} (h : Parts support user password host (Nat.toDigits 10 n)) :
    SplitResult.port ⟨scheme, netlocText user password host (Nat.toDigits 10 n)⟩ =
      if n ≤ 65535 then some (some n) else none := by
  have hall : (Nat.toDigits 10 n).all isAsciiDigit = true := List.all_eq_true.mpr isAsciiDigit_toDigits
  rw [SplitResult.port, hostinfo_netloc h]
  dsimp only
  rw [if_neg Nat.toDigits_ne_nil, PyText.ofDigits_toDigits]
  simp only [hall, true_and]

-- A host is returned as it was written if what is in front of a zone is its own
-- lower case.
theorem lowerName_eq_iff {text : List Char} :
    lowerName support text = text ↔
      support.lower (text.takeWhile (· ≠ '%')) = text.takeWhile (· ≠ '%') := by
  by_cases hm : '%' ∈ text
  · obtain ⟨name, rest, rfl, hzone⟩ := List.eq_append_cons_of_mem hm
    rw [lowerName, partition_separated hzone, takeWhile_separated hzone]
    simp
  · rw [lowerName, partition_absent hm, takeWhile_of_notMem hm]
    simp

theorem isPlain_hexDigit {n : Nat} (hn : n < 16) : isPlain (hexDigit n) := by
  revert n
  decide

theorem isPlain_quote {text : List Char} : ∀ c ∈ quote text, isPlain c := by
  intro c hc
  obtain ⟨d, _, hd⟩ := List.mem_flatMap.mp hc
  split at hd
  · rename_i hsafe
    obtain rfl := List.mem_singleton.mp hd
    exact isPlain_of_unreserved hsafe
  · obtain ⟨b, _, hb⟩ := List.mem_flatMap.mp hd
    have hbyte := b.toNat_lt
    simp only [percent, List.mem_cons, List.not_mem_nil, or_false] at hb
    rcases hb with rfl | rfl | rfl
    · decide
    · exact isPlain_hexDigit (by omega)
    · exact isPlain_hexDigit (by omega)

-- An escape is three characters or more, so that a text with one gets longer.
theorem length_escape (c : Char) : 3 ≤ ((String.utf8EncodeChar c).flatMap percent).length := by
  have hlen : ∀ bytes : List UInt8, (bytes.flatMap percent).length = 3 * bytes.length := by
    intro bytes
    induction bytes with
    | nil => rfl
    | cons b bytes ih =>
        rw [List.flatMap_cons, List.length_append, ih, List.length_cons]
        simp only [percent, List.length_cons, List.length_nil]
        omega
  have hpos := c.utf8Size_pos
  rw [hlen, String.length_utf8EncodeChar]
  omega

theorem length_quote (text : List Char) : text.length ≤ (quote text).length := by
  induction text with
  | nil => exact Nat.zero_le _
  | cons c text ih =>
      have hescape := length_escape c
      rw [quote, List.flatMap_cons, List.length_append, List.length_cons, ← quote]
      split
      · rw [List.length_singleton]
        omega
      · omega

theorem quote_eq_iff {text : List Char} : quote text = text ↔ ∀ c ∈ text, isUnreserved c := by
  induction text with
  | nil => simp [quote]
  | cons c text ih =>
      have hescape := length_escape c
      have hlen := length_quote text
      rw [quote, List.flatMap_cons, ← quote, List.forall_mem_cons, ← ih]
      by_cases hc : isUnreserved c
      · simp [hc]
      · rw [if_neg hc]
        constructor
        · intro h
          have hsame := congrArg List.length h
          rw [List.length_append, List.length_cons] at hsame
          omega
        · intro h
          exact absurd h.1 hc

end PyUrl
