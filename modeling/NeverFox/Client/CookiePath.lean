import NeverFox.Client.CookieScope

namespace NeverFox.Client

-- The path of a request without its query.
def pathPart (path : String) : List Char := path.toList.takeWhile (· ≠ '?')

-- RFC 6265, section 5.1.4.
def PathMatches (requestPath cookiePath : List Char) : Prop :=
  requestPath = cookiePath ∨
    cookiePath <+: requestPath ∧
      (cookiePath.getLast? = some '/' ∨ (requestPath.drop cookiePath.length).head? = some '/')

-- The conditions of `header_for` other than the path.
structure Admitted (jar : CookieJar) (host : String) (secure : Bool) (now : Rat) (c : Cookie) :
    Prop where
  stored : c ∈ Dict.values jar
  live : CookieJar.expired now c = false
  domain : domainMatches (PyText.lower host) c.domain
  security : c.secure → secure

-- The cookie's path ends in the middle of a segment of the request's.
def SplitsSegment (cookiePath : List Char) (path : String) : Prop :=
  ∃ next rest, pathPart path = cookiePath ++ next :: rest ∧ next ≠ '/' ∧
    cookiePath.getLast? ≠ some '/'

-- The cookie's path goes on into the query of the request.
def ReachesQuery (cookiePath : List Char) (path : String) : Prop :=
  cookiePath <+: path.toList ∧ (pathPart path).length < cookiePath.length

theorem pathPart_begins (path : String) : pathPart path <+: path.toList :=
  List.takeWhile_prefix _

theorem startsWith_cases {cookiePath : List Char} {path : String} (h : cookiePath <+: path.toList) :
    cookiePath <+: pathPart path ∨ ReachesQuery cookiePath path := by
  by_cases hlen : cookiePath.length ≤ (pathPart path).length
  · left
    exact List.prefix_of_prefix_length_le h (pathPart_begins path) hlen
  · right
    exact ⟨h, by omega⟩

theorem startsWith_of_pathMatches {cookiePath : List Char} {path : String}
    (h : PathMatches (pathPart path) cookiePath) : cookiePath <+: path.toList := by
  apply List.IsPrefix.trans _ (pathPart_begins path)
  rcases h with heq | ⟨hbegins, _⟩
  · exact ⟨[], by rw [heq, List.append_nil]⟩
  · exact hbegins

theorem not_pathMatches_of_splitsSegment {cookiePath : List Char} {path : String}
    (h : SplitsSegment cookiePath path) : ¬PathMatches (pathPart path) cookiePath := by
  obtain ⟨next, rest, hpath, hnext, hlast⟩ := h
  intro hm
  rcases hm with heq | ⟨_, hslash | hslash⟩
  · have hlen := congrArg List.length heq
    rw [hpath, List.length_append, List.length_cons] at hlen
    omega
  · exact hlast hslash
  · rw [hpath, List.drop_left, List.head?_cons] at hslash
    exact hnext (Option.some.inj hslash)

theorem not_pathMatches_of_reachesQuery {cookiePath : List Char} {path : String}
    (h : ReachesQuery cookiePath path) : ¬PathMatches (pathPart path) cookiePath := by
  intro hm
  have hlen : cookiePath.length ≤ (pathPart path).length := by
    rcases hm with heq | ⟨hbegins, _⟩
    · rw [heq]
    · exact hbegins.length_le
  have := h.2
  omega

-- What the prefix test lets through and the path-match does not.
theorem startsWith_cases_iff (cookiePath : List Char) (path : String) :
    cookiePath <+: path.toList ∧ ¬PathMatches (pathPart path) cookiePath ↔
      SplitsSegment cookiePath path ∨ ReachesQuery cookiePath path := by
  constructor
  · rintro ⟨hbegins, hm⟩
    rcases startsWith_cases hbegins with hpath | hquery
    · left
      obtain ⟨rest, hrest⟩ := hpath
      cases rest with
      | nil => exact absurd (.inl (by rw [← hrest, List.append_nil])) hm
      | cons next rest =>
          refine ⟨next, rest, hrest.symm, ?_, ?_⟩
          · intro hnext
            apply hm
            right
            refine ⟨⟨_, hrest⟩, .inr ?_⟩
            rw [← hrest, List.drop_left, List.head?_cons, hnext]
          · intro hlast
            exact hm (.inr ⟨⟨_, hrest⟩, .inl hlast⟩)
    · exact .inr hquery
  · intro h
    rcases h with hsplit | hquery
    · refine ⟨?_, not_pathMatches_of_splitsSegment hsplit⟩
      obtain ⟨next, rest, hpath, _, _⟩ := hsplit
      exact List.IsPrefix.trans ⟨_, hpath.symm⟩ (pathPart_begins path)
    · exact ⟨hquery.1, not_pathMatches_of_reachesQuery hquery⟩

theorem mem_selected_iff_of_admitted {jar : CookieJar} {host : String} {secure : Bool} {now : Rat}
    {c : Cookie} (path : String) (h : Admitted jar host secure now c) :
    c ∈ CookieJar.selected jar host path secure now ↔ c.path.toList <+: path.toList := by
  rw [mem_selected]
  constructor
  · intro hin
    exact hin.2.2.2.1
  · intro hpath
    exact ⟨h.stored, h.live, h.domain, hpath, h.security⟩

-- The line holds the cookies selected, and a cookie that everything else admits
-- is among them by path-match, unless its path ends inside a segment or in the query.
theorem path_matched_iff (jar : CookieJar) (host path : String) (secure : Bool) (now : Rat)
    (c : Cookie) (h : Admitted jar host secure now c) :
    (CookieJar.headerFor jar host path secure now).1 =
        "; ".intercalate ((CookieJar.selected jar host path secure now).map
          fun c => s!"{c.name}={c.value}") ∧
    ((c ∈ CookieJar.selected jar host path secure now ↔
        PathMatches (pathPart path) c.path.toList) ↔
      ¬(SplitsSegment c.path.toList path ∨ ReachesQuery c.path.toList path)) := by
  refine ⟨rfl, ?_⟩
  rw [mem_selected_iff_of_admitted path h, ← startsWith_cases_iff]
  constructor
  · intro hiff hmiss
    exact hmiss.2 (hiff.mp hmiss.1)
  · intro hnone
    constructor
    · intro hbegins
      by_contra hm
      exact hnone ⟨hbegins, hm⟩
    · exact startsWith_of_pathMatches

def fooCookie : Cookie := ⟨"sid", "1", "a.example", "/foo", false, none⟩

-- What `Set-Cookie: sid=1; Path=/foo` leaves.
def fooJar : CookieJar :=
  (CookieJar.setFromResponse (fun _ => some [{ name := "sid", value := "1", path := "/foo" }])
    .empty "a.example" 0 ["sid=1; Path=/foo"]).1

theorem fooCookie_admitted : Admitted fooJar "a.example" true 0 fooCookie :=
  ⟨by decide +kernel, by decide +kernel, by decide +kernel, by decide +kernel⟩

theorem foo_path_matched :
    fooCookie ∈ CookieJar.selected fooJar "a.example" "/foo/bar?x=1" true 0 ↔
      PathMatches (pathPart "/foo/bar?x=1") fooCookie.path.toList := by
  have hpart : pathPart "/foo/bar?x=1" = "/foo/bar".toList := by decide +kernel
  have hpath : fooCookie.path.toList = "/foo".toList := rfl
  apply (path_matched_iff fooJar "a.example" "/foo/bar?x=1" true 0 fooCookie
    fooCookie_admitted).2.mpr
  intro h
  rw [hpath] at h
  rcases h with ⟨next, rest, hsplit, hnext, _⟩ | ⟨_, hlen⟩
  · rw [hpart] at hsplit
    have hdrop := congrArg (List.drop 4) hsplit
    exact hnext (List.cons.inj hdrop).1.symm
  · rw [hpart] at hlen
    exact absurd hlen (by decide)

-- A cookie for /foo goes to /foobar.
theorem sibling_path_included :
    fooCookie ∈ CookieJar.selected fooJar "a.example" "/foobar" true 0 ∧
      (CookieJar.headerFor fooJar "a.example" "/foobar" true 0).1 = "sid=1" ∧
      ¬PathMatches (pathPart "/foobar") fooCookie.path.toList := by
  refine ⟨by decide +kernel, by decide +kernel, ?_⟩
  apply not_pathMatches_of_splitsSegment
  exact ⟨'b', ['a', 'r'], by decide +kernel, by decide, by decide +kernel⟩

end NeverFox.Client
