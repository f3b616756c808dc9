import NeverFox.Client.Deeds
import NeverFox.Client.SimpleCookie
import Mathlib.Algebra.Order.Ring.Rat

namespace NeverFox.Client

-- A Set-Cookie value as RFC 6265, section 5.2, reads it, without a look at the
-- pattern: what stands between the semicolons, each with what is behind its first
-- equals sign. Blank pieces say nothing.
def pieces (raw : String) : List Token :=
  let strip := PyText.strip fun c => c = ' ' || c = '\t'
  (raw.toList.splitOn ';').filterMap fun piece =>
    if strip piece = [] then none
    else some
      { key := String.ofList (strip (piece.takeWhile (· ≠ '=')))
        value := (piece.dropWhile (· ≠ '=')).tail?.map fun value => String.ofList (strip value) }

-- A name=value pair that is no attribute.
def Token.isPair (t : Token) : Bool := !t.isDollar && !t.isReserved && t.value.isSome

-- The text of an attribute where it is given for the last time.
def attributeText (s : CookieSyntax) (tokens : List Token) (name : String) : String :=
  (((tokens.reverse.find? fun t => PyText.lower t.key = name).bind Token.value).map s.unquote).getD ""

-- The cookie of a pair, with every attribute that is among the pieces.
def askedBy (s : CookieSyntax) (tokens : List Token) (t : Token) : Morsel :=
  ⟨t.key, s.unquote (t.value.getD ""), attributeText s tokens "domain", attributeText s tokens "path",
    tokens.any fun t => PyText.lower t.key = "secure", attributeText s tokens "max-age"⟩

-- The one cookie a Set-Cookie value is for: its first pair.
def asked (s : CookieSyntax) (raw : String) : Option Morsel :=
  ((pieces raw).find? Token.isPair).map (askedBy s (pieces raw))

-- What is to be done for it, and nothing if there is no pair.
def askedDeed (s : CookieSyntax) (host : String) (now : Rat) (raw : String) : Deed :=
  ((asked s raw).map (deedOf (PyText.lower host) now)).getD .ignore

-- The stronger reading: every entry is as that deed leaves it.
def AppliesAll (s : CookieSyntax) (host : String) (now : Rat) (raw : String) : Prop :=
  ∀ (jar : CookieJar) (key : CookieKey),
    Dict.get? (CookieJar.add s.load jar host now raw).1 key =
      Dict.get? ((askedDeed s host now raw).apply jar) key

-- The entries of a value up to the first that raises.
def reached (host : String) (entries : List Morsel) : List Morsel :=
  entries.takeWhile fun m => cookieDomain host m = none || !overflows m

-- An entry is the cookie asked for: the name, the scope, and the same end of the
-- old cookie or the same value, Secure and end of lifetime.
structure Agrees (host : String) (now : Rat) (m e : Morsel) : Prop where
  name : m.name = e.name
  domain : cookieDomain host m = cookieDomain host e
  path : (if m.path = "" then "/" else m.path) = if e.path = "" then "/" else e.path
  finite : overflows e = false
  ended : deletes m = deletes e
  rest : deletes e ∨ m.value = e.value ∧ m.secure = e.secure ∧
    (countedAge m).map (CookieJar.expiry now) = (countedAge e).map (CookieJar.expiry now)

variable {host : String} {now : Rat} {m e : Morsel}

section Plain

-- An attribute that SimpleCookie knows, and a Secure that it takes for one.
def Token.isApplied (s : CookieSyntax) (t : Token) : Bool :=
  !t.isDollar && t.isReserved &&
    match t.value with
    | none => PyText.lower t.key ∈ flags
    | some value => PyText.lower t.key ≠ "secure" || s.unquote value ≠ ""

def Token.attributeValue (s : CookieSyntax) (t : Token) : AttributeValue :=
  match t.value with
  | none => .flag
  | some value => .text (s.unquote value)

variable {s : CookieSyntax}

theorem parsedItems_applied {attributes : List Token} (h : ∀ t ∈ attributes, t.isApplied s) :
    parsedItems s.unquote true attributes =
      some (attributes.map fun t => .attr t.key (t.attributeValue s)) := by
  induction attributes with
  | nil => rfl
  | cons t attributes ih =>
      have ht := h t List.mem_cons_self
      have hrest := ih fun t' ht' => h t' (List.mem_cons_of_mem _ ht')
      simp only [Token.isApplied, Bool.and_eq_true, Bool.not_eq_true'] at ht
      obtain ⟨⟨hdollar, hreserved⟩, hvalue⟩ := ht
      rw [parsedItems, hdollar, hreserved, if_neg (by decide), if_pos rfl, if_pos rfl, hrest, List.map_cons]
      cases hv : t.value with
      | none =>
          rw [hv] at hvalue
          dsimp only at hvalue ⊢
          rw [if_pos (of_decide_eq_true hvalue), Token.attributeValue, hv]
          rfl
      | some value =>
          rw [Token.attributeValue, hv]
          rfl

-- The attributes of a dict's only morsel are gathered in it.
theorem applyItems_gathers {attributes : List Token} (h : ∀ t ∈ attributes, t.isApplied s) (m : Morsel) :
    (applyItems (Dict.set .empty m.name m) (some m.name)
      (attributes.map fun t => .attr t.key (t.attributeValue s))).map Dict.values =
      some [attributes.foldl (fun m t => m.withAttribute (PyText.lower t.key) (t.attributeValue s)) m] := by
  induction attributes generalizing m with
  | nil => rfl
  | cons t attributes ih =>
      have ht := h t List.mem_cons_self
      have hreserved : PyText.lower t.key ∈ reserved := by
        simp only [Token.isApplied, Bool.and_eq_true] at ht
        exact of_decide_eq_true ht.1.2
      have hget : (Dict.set .empty m.name m).get? m.name = some m := by rw [Dict.get?_set, if_pos rfl]
      have hset : ∀ m' : Morsel, m'.name = m.name →
          Dict.set (Dict.set .empty m.name m) m.name m' = Dict.set .empty m'.name m' := by
        intro m' hname
        rw [hname]
        simp [Dict.set, Dict.empty, Dict.keys]
      have hname := withAttribute_name m (PyText.lower t.key) (t.attributeValue s)
      rw [List.map_cons, applyItems, Option.bind_some, hget]
      dsimp only
      rw [if_pos hreserved, hset _ hname, List.foldl_cons, ← ih (fun t' ht' => h t' (List.mem_cons_of_mem _ ht')),
        hname]

theorem attributeText_concat (tokens : List Token) (t : Token) (name : String) :
    attributeText s (tokens ++ [t]) name =
      if PyText.lower t.key = name then (t.value.map s.unquote).getD "" else attributeText s tokens name := by
  rw [attributeText, List.reverse_append, List.reverse_singleton, List.singleton_append, List.find?_cons]
  by_cases hname : PyText.lower t.key = name <;> simp [hname, attributeText]

-- What is gathered is what the value asks for: the last of each attribute.
theorem gathered_eq_asked {first : Token} (hfirst : first.isPair) {attributes : List Token}
    (h : ∀ t ∈ attributes, t.isApplied s) :
    attributes.foldl (fun m t => m.withAttribute (PyText.lower t.key) (t.attributeValue s))
        ⟨first.key, s.unquote (first.value.getD ""), "", "", false, ""⟩ =
      askedBy s (first :: attributes) first := by
  induction attributes using List.reverseRecOn with
  | nil =>
      have hne : ∀ name ∈ reserved, PyText.lower first.key ≠ name := by
        rintro name hname rfl
        simp only [Token.isPair, Token.isReserved, Bool.and_eq_true, Bool.not_eq_true',
          decide_eq_false_iff_not] at hfirst
        exact hfirst.1.2 hname
      have htext : ∀ name ∈ reserved, attributeText s [first] name = "" := by
        intro name hname
        have hconcat := attributeText_concat (s := s) [] first name
        rw [if_neg (hne name hname)] at hconcat
        exact hconcat
      rw [List.foldl_nil, askedBy, htext _ (by decide), htext _ (by decide), htext _ (by decide)]
      simp [hne "secure" (by decide)]
  | append_singleton attributes t ih =>
      have ht := h t (by simp)
      have hstr : (t.attributeValue s).str = (t.value.map s.unquote).getD "" := by
        rw [Token.attributeValue]
        cases t.value <;> rfl
      have htruthy : PyText.lower t.key = "secure" → (t.attributeValue s).truthy = true := by
        intro hsecure
        rw [Token.attributeValue]
        simp only [Token.isApplied, Bool.and_eq_true] at ht
        cases hv : t.value with
        | none => rfl
        | some value => simpa [hv, hsecure, AttributeValue.truthy] using ht.2
      rw [List.foldl_concat, ih fun t' ht' => h t' (List.mem_append_left _ ht'), ← List.cons_append]
      simp only [askedBy, Morsel.withAttribute, attributeText_concat, hstr, List.any_append, List.any_cons,
        List.any_nil, Bool.or_false]
      by_cases hdomain : PyText.lower t.key = "domain"
      · simp [hdomain]
      by_cases hpath : PyText.lower t.key = "path"
      · simp [hpath]
      by_cases hsecure : PyText.lower t.key = "secure"
      · simp [hsecure, htruthy hsecure]
      by_cases hage : PyText.lower t.key = "max-age"
      · simp [hage]
      · simp [hdomain, hpath, hsecure, hage]

-- A value that the pattern reads to its end, whose only pair is the first, with
-- attributes that are all known, does just what it asks for.
theorem plain_value_applies (s : CookieSyntax) (host : String) (now : Rat) (raw : String) {first : Token}
    {attributes : List Token} (hpieces : pieces raw = first :: attributes) (hscan : s.scan raw = pieces raw)
    (hfirst : first.isPair) (hlegal : isLegalKey first.key) (hattributes : ∀ t ∈ attributes, t.isApplied s) :
    AppliesAll s host now raw := by
  rw [hpieces] at hscan
  have hpair := hfirst
  simp only [Token.isPair, Bool.and_eq_true, Bool.not_eq_true', Option.isSome_iff_exists] at hpair
  obtain ⟨⟨hdollar, hreserved⟩, value, hvalue⟩ := hpair
  have hasked : asked s raw = some (askedBy s (first :: attributes) first) := by
    rw [asked, hpieces, List.find?_cons_of_pos hfirst, Option.map_some]
  have hload : s.load raw = some [askedBy s (first :: attributes) first] := by
    have hgathers := applyItems_gathers hattributes ⟨first.key, s.unquote value, "", "", false, ""⟩
    have hgathered := gathered_eq_asked hfirst hattributes
    rw [hvalue, Option.getD_some] at hgathered
    rw [CookieSyntax.load, hscan, parsedItems, hdollar, hreserved, if_neg (by decide), if_neg (by decide),
      hvalue, parsedItems_applied hattributes]
    dsimp only [Option.map_some]
    rw [applyItems, if_pos hlegal, ← hgathered, ← hgathers]
    rfl
  intro jar key
  rw [CookieJar.add, hload, askedDeed, hasked]
  dsimp only [Option.map_some, Option.getD_some]
  rw [CookieJar.addMorsels, addMorsel_eq]
  cases (deedOf (PyText.lower host) now (askedBy s (first :: attributes) first)).raised <;> rfl

end Plain

end NeverFox.Client
