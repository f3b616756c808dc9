import NeverFox.Basic
import NeverFox.Lib.Dict
import NeverFox.Lib.PyText
import NeverFox.Lib.Binary64
import Mathlib.Data.List.Sort

namespace NeverFox.Client

-- One entry of a SimpleCookie, with the attributes that `_add` reads. An
-- attribute that was not given is the empty string.
structure Morsel where
  name : String
  value : String
  domain : String := ""
  path : String := ""
  secure : Bool := false
  maxAge : String := ""
  deriving DecidableEq

-- `_C`.
structure Cookie where
  name : String
  value : String
  domain : String
  path : String
  secure : Bool
  expires : Option Rat
  deriving DecidableEq

-- (domain, path, name).
abbrev CookieKey := String × String × String

abbrev CookieJar := Dict CookieKey Cookie

def lstripDots (text : String) : String := String.ofList (text.toList.dropWhile (· = '.'))

-- `host == domain or host.endswith("." + domain)`.
def domainMatches (host domain : String) : Bool :=
  host = domain || ('.' :: domain.toList) <:+ host.toList

-- The domain a cookie is stored under; none rejects it.
def cookieDomain (host : String) (m : Morsel) : Option String :=
  if m.domain = "" then some host
  else
    let domain := PyText.lower (lstripDots m.domain)
    if '.' ∉ domain.toList ∨ domainMatches host domain = false then none else some domain

namespace CookieJar

-- The first integer that `time.time() + age` cannot convert to a float.
def floatOverflow : Int := 2 ^ 1024 - 2 ^ 970

-- `time.time() + age`: the age as a double, and their sum as another.
def expiry (now : Rat) (age : Int) : Rat := Binary64.nearest (now + Binary64.nearest age)

-- A Max-Age that int() rejects is ignored, one that is not positive deletes.
-- Like the functions below it gives the jar it leaves and what it raises.
def addMorsel (jar : CookieJar) (host : String) (now : Rat) (m : Morsel) : CookieJar × Option Exn :=
  match cookieDomain host m with
  | none => (jar, none)
  | some domain =>
      let path := if m.path = "" then "/" else m.path
      let key := (domain, path, m.name)
      let store := fun expires =>
        if m.value = "" then Dict.erase jar key
        else Dict.set jar key ⟨m.name, m.value, domain, path, m.secure, expires⟩
      match if m.maxAge = "" then none else PyText.intOfStr 10 m.maxAge.toList with
      | none => (store none, none)
      | some age =>
          if age ≤ 0 then (Dict.erase jar key, none)
          else if floatOverflow ≤ age then (jar, some .overflowError)
          else (store (some (expiry now age)), none)

def addMorsels (jar : CookieJar) (host : String) (now : Rat) : List Morsel → CookieJar × Option Exn
  | [] => (jar, none)
  | m :: rest =>
      match addMorsel jar host now m with
      | (jar, none) => addMorsels jar host now rest
      | raised => raised

-- `_add`: a value that SimpleCookie cannot load adds nothing.
def add (load : String → Option (List Morsel)) (jar : CookieJar) (host : String) (now : Rat)
    (raw : String) : CookieJar × Option Exn :=
  match load raw with
  | none => (jar, none)
  | some morsels => addMorsels jar (PyText.lower host) now morsels

def setFromResponse (load : String → Option (List Morsel)) (jar : CookieJar) (host : String)
    (now : Rat) : List String → CookieJar × Option Exn
  | [] => (jar, none)
  | raw :: rest =>
      match add load jar host now raw with
      | (jar, none) => setFromResponse load jar host now rest
      | raised => raised

-- An expiry of zero counts as none.
def expired (now : Rat) (c : Cookie) : Bool :=
  match c.expires with
  | none => false
  | some expires => expires ≠ 0 && expires < now

def matchesRequest (host path : String) (secure : Bool) (c : Cookie) : Bool :=
  domainMatches host c.domain && c.path.toList <+: path.toList && (!c.secure || secure)

-- Longer paths first, and in the order of the jar among equals.
def ordered (cookies : List Cookie) : List Cookie :=
  cookies.insertionSort fun a b => b.path.length ≤ a.path.length

-- `header_for`: the expired cookies are dropped from the jar on the way.
def headerFor (jar : CookieJar) (host path : String) (secure : Bool) (now : Rat) :
    String × CookieJar :=
  let live := (Dict.values jar).filter fun c => !expired now c
  let matched := live.filter (matchesRequest (PyText.lower host) path secure)
  ("; ".intercalate ((ordered matched).map fun c => s!"{c.name}={c.value}"),
    (Dict.keys jar).foldl (fun jar key =>
      match Dict.get? jar key with
      | some c => if expired now c then Dict.erase jar key else jar
      | none => jar) jar)

end CookieJar

end NeverFox.Client
