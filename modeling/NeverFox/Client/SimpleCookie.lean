import NeverFox.Client.Cookies

namespace NeverFox.Client

-- What the pattern of http.cookies matches in a text: a key and, behind an equals
-- sign, a value as it is written.
structure Token where
  key : String
  value : Option String
  deriving DecidableEq

-- The pattern, and `_unquote`.
structure CookieSyntax where
  scan : String → List Token
  unquote : String → String

-- `Morsel._reserved` and `Morsel._flags`.
def reserved : List String :=
  ["expires", "path", "comment", "domain", "max-age", "secure", "httponly", "version", "samesite"]

def flags : List String := ["secure", "httponly"]

-- The value of an attribute: None, True or a text.
inductive AttributeValue
  | absent
  | flag
  | text (value : String)
  deriving DecidableEq

namespace AttributeValue

def ofOption : Option String → AttributeValue
  | none => .absent
  | some value => .text value

-- None and the empty text count the same.
def str : AttributeValue → String
  | .text value => value
  | _ => ""

def truthy : AttributeValue → Bool
  | .absent => false
  | .flag => true
  | .text value => value ≠ ""

end AttributeValue

inductive Item
  | attr (key : String) (value : AttributeValue)
  | pair (key value : String)
  deriving DecidableEq

def Token.isDollar (t : Token) : Bool := t.key.toList.head? = some '$'

def Token.isReserved (t : Token) : Bool := PyText.lower t.key ∈ reserved

-- The first loop of `__parse_string`; none is a text that is given up as a whole.
def parsedItems (unquote : String → String) : Bool → List Token → Option (List Item)
  | _, [] => some []
  | seen, t :: rest =>
      if t.isDollar then
        if seen then
          (parsedItems unquote seen rest).map
            (.attr (String.ofList (t.key.toList.drop 1)) (.ofOption t.value) :: ·)
        else parsedItems unquote seen rest
      else if t.isReserved then
        if seen then
          match t.value with
          | none =>
              if PyText.lower t.key ∈ flags then
                (parsedItems unquote seen rest).map (.attr t.key .flag :: ·)
              else none
          | some value => (parsedItems unquote seen rest).map (.attr t.key (.text (unquote value)) :: ·)
        else none
      else match t.value with
        | some value => (parsedItems unquote true rest).map (.pair t.key (unquote value) :: ·)
        | none => none

-- `_is_legal_key`.
def isLegalKey (key : String) : Bool :=
  key ≠ "" && key.toList.all fun c => c.isAlphanum || c ∈ "!#$%&'*+-.^_`|~:".toList

-- `Morsel.__setitem__` of a reserved key, in lower case.
def Morsel.withAttribute (m : Morsel) (key : String) (value : AttributeValue) : Morsel :=
  if key = "domain" then { m with domain := value.str }
  else if key = "path" then { m with path := value.str }
  else if key = "secure" then { m with secure := value.truthy }
  else if key = "max-age" then { m with maxAge := value.str }
  else m

-- The second loop: attributes go to the morsel of the last pair. A pair whose
-- name is there already keeps the attributes it has. none is a CookieError.
def applyItems : Dict String Morsel → Option String → List Item → Option (Dict String Morsel)
  | jar, _, [] => some jar
  | jar, current, .attr key value :: rest =>
      match current.bind jar.get? with
      | none => none
      | some m =>
          if PyText.lower key ∈ reserved then
            applyItems (jar.set m.name (m.withAttribute (PyText.lower key) value)) current rest
          else none
  | jar, _, .pair key value :: rest =>
      if isLegalKey key then
        let m := (jar.get? key).getD ⟨key, "", "", "", false, ""⟩
        applyItems (jar.set key { m with value := value }) (some key) rest
      else none

-- `SimpleCookie().load(raw)` and then the entries; none if it raises.
def CookieSyntax.load (s : CookieSyntax) (raw : String) : Option (List Morsel) :=
  match parsedItems s.unquote false (s.scan raw) with
  | none => some []
  | some items => (applyItems .empty none items).map Dict.values

theorem withAttribute_name (m : Morsel) (key : String) (value : AttributeValue) :
    (m.withAttribute key value).name = m.name := by
  unfold Morsel.withAttribute
  split
  · rfl
  · split
    · rfl
    · split
      · rfl
      · split <;> rfl

-- Every morsel is in the dict under its own name.
def Named (jar : Dict String Morsel) : Prop := ∀ entry ∈ jar.entries, entry.1 = entry.2.name

end NeverFox.Client
