import NeverFox.Client.CookieScope
import NeverFox.Client.Leak

namespace NeverFox.Client

def isCookie (field : Header) : Bool := PyText.lower field.1 = "cookie"

def isAcceptEncoding (field : Header) : Bool := PyText.lower field.1 = "accept-encoding"

-- The pairs a request must carry: the jar's, then those of cookies=.
def cookiePairs (jar : CookieJar) (host path : String) (secure : Bool) (now : Rat)
    (cookies : List (String × String)) : List String :=
  (CookieJar.selected jar host path secure now).map (fun c => s!"{c.name}={c.value}") ++
    cookies.map cookiePair

theorem isCookie_line (line : String) : isCookie ("cookie", line) := by
  have hname : PyText.lower "cookie" = "cookie" := by decide
  simp [isCookie, hname]

-- The base list as a redirect corrects it.
def corrected (redirectSite : Option String) (base : List Header) : List Header :=
  (base.filter fun field => !(redirectSite.isSome && PyText.lower field.1 = "sec-fetch-user")).map
    fun field => (field.1,
      if PyText.lower field.1 = "sec-fetch-site" then redirectSite.getD field.2 else field.2)

-- The base list and the body's fields, in order, with all pairs in one cookie
-- field among them if there are any.
def CarriesOnce (base bodyHeaders : List Header) (pairs : List String) (headers : List Header) : Prop :=
  if pairs = [] then headers = base ++ bodyHeaders
  else ∃ before after field, headers = before ++ field :: after ∧
    isCookie field ∧ field.2 = "; ".intercalate pairs ∧ before ++ after = base ++ bodyHeaders ∧
    ∀ other ∈ before ++ after, isCookie other = false

-- Nothing at either end of the line is taken for a separator and stripped.
def edgesKept (line : String) : Prop :=
  (∀ c ∈ line.toList.head?, isStripped c = false) ∧ ∀ c ∈ line.toList.getLast?, isStripped c = false

-- There is one place for a cookie field, and no such field already.
def HasPlace (base bodyHeaders : List Header) : Prop :=
  base.countP isAcceptEncoding = 1 ∧ ∀ field ∈ base ++ bodyHeaders, isCookie field = false

theorem strip_eq_self_iff (text : List Char) :
    PyText.strip isStripped text = text ↔
      (∀ c ∈ text.head?, isStripped c = false) ∧ ∀ c ∈ text.getLast?, isStripped c = false := by
  have hdrop : text.dropWhile isStripped = text ↔ ∀ c ∈ text.head?, isStripped c = false := by
    rw [List.dropWhile_eq_self_iff]
    cases text <;> simp
  have hrdrop : text.rdropWhile isStripped = text ↔ ∀ c ∈ text.getLast?, isStripped c = false := by
    rw [List.rdropWhile_eq_self_iff]
    cases hlast : text.getLast? with
    | none => simp_all
    | some c =>
        obtain ⟨front, rfl⟩ := List.getLast?_eq_some_iff.mp hlast
        simp
  rw [← hdrop, ← hrdrop, PyText.strip]
  constructor
  · intro h
    -- Neither of the two ever lengthens the text.
    have hlen := congrArg List.length h
    have hfront := (List.dropWhile_sublist isStripped (l := text)).length_le
    have hback := (List.rdropWhile_prefix isStripped (text.dropWhile isStripped)).length_le
    have heq : text.dropWhile isStripped = text :=
      (List.dropWhile_sublist isStripped).eq_of_length (by omega)
    exact ⟨heq, by rwa [heq] at h⟩
  · rintro ⟨hfront, hback⟩
    rw [hfront, hback]

theorem pairs_nonempty {pairs : List String} (hne : pairs ≠ []) (heq : ∀ p ∈ pairs, '=' ∈ p.toList) :
    "; ".intercalate pairs ≠ "" := by
  obtain ⟨p, rest, rfl⟩ := List.exists_cons_of_ne_nil hne
  have hp := heq p (by simp)
  intro h
  have hnil := congrArg String.toList h
  cases rest with
  | nil => simp_all
  | cons q rest =>
      rw [String.intercalate_cons_cons] at hnil
      simp_all

theorem mem_cookiePairs {jar : CookieJar} {host path : String} {secure : Bool} {now : Rat}
    {cookies : List (String × String)} {p : String}
    (h : p ∈ cookiePairs jar host path secure now cookies) : '=' ∈ p.toList := by
  rcases List.mem_append.mp h with h | h
  · obtain ⟨c, _, rfl⟩ := List.mem_map.mp h
    simp [toString]
  · obtain ⟨c, _, rfl⟩ := List.mem_map.mp h
    simp [cookiePair_toList]

-- The line built is the line of all pairs, but for what is stripped off it
-- where the two parts are joined.
theorem cookieHeader_eq_iff (jar : CookieJar) (host path : String) (secure : Bool) (now : Rat)
    (cookies : List (String × String)) :
    cookieHeader (CookieJar.headerFor jar host path secure now).1 cookies =
        "; ".intercalate (cookiePairs jar host path secure now cookies) ↔
      CookieJar.selected jar host path secure now = [] ∨ cookies = [] ∨
        edgesKept ("; ".intercalate (cookiePairs jar host path secure now cookies)) := by
  have hline : (CookieJar.headerFor jar host path secure now).1 =
      "; ".intercalate ((CookieJar.selected jar host path secure now).map
        fun c => s!"{c.name}={c.value}") := rfl
  by_cases hc : cookies = []
  · simp [cookieHeader, cookiePairs, hc, hline]
  by_cases hs : CookieJar.selected jar host path secure now = []
  · simp [cookieHeader, cookiePairs, hc, hline, hs]
  have hjar : (CookieJar.headerFor jar host path secure now).1 ≠ "" := by
    rw [hline]
    refine pairs_nonempty (by simpa using hs) fun p hp => ?_
    exact mem_cookiePairs (List.mem_append_left (cookies.map cookiePair) hp)
  have hjoin : "; ".intercalate (cookiePairs jar host path secure now cookies) =
      (CookieJar.headerFor jar host path secure now).1 ++ "; " ++
        "; ".intercalate (cookies.map cookiePair) := by
    rw [cookiePairs, String.intercalate_append_of_ne_nil (by simpa using hs) (by simpa using hc), hline]
  rw [hjoin, cookieHeader, if_neg hc]
  simp only [hjar, ↓reduceIte, hs, hc, false_or]
  rw [edgesKept, ← strip_eq_self_iff, ← String.toList_inj, String.toList_ofList]

theorem corrected_cons (site : Option String) (field : Header) (base : List Header) :
    corrected site (field :: base) = navigated "" site field ++ corrected site base := by
  unfold corrected navigated
  by_cases h : site.isSome = true ∧ PyText.lower field.1 = "sec-fetch-user"
  · simp [h]
  · by_cases hsite : site.isSome = true <;> simp_all

-- Only accept-encoding brings the cookie field along.
theorem navigated_line {line : String} (hline : line ≠ "") (site : Option String) (field : Header) :
    navigated line site field =
      navigated "" site field ++ if isAcceptEncoding field then [("cookie", line)] else [] := by
  unfold navigated isAcceptEncoding
  by_cases huser : site.isSome = true ∧ PyText.lower field.1 = "sec-fetch-user"
  · simp [huser]
  · simp [huser, hline]

theorem navigated_none (base : List Header) (site : Option String) :
    base.flatMap (navigated "" site) = corrected site base := by
  induction base with
  | nil => rfl
  | cons field base ih => rw [List.flatMap_cons, ih, corrected_cons]

theorem isCookie_corrected (site : Option String) (base : List Header) :
    (∀ field ∈ corrected site base, isCookie field = false) ↔ ∀ field ∈ base, isCookie field = false := by
  induction base with
  | nil => simp [corrected]
  | cons field base ih =>
      have hfield : (∀ f ∈ navigated "" site field, isCookie f = false) ↔ isCookie field = false := by
        unfold navigated isCookie
        by_cases huser : site.isSome = true ∧ PyText.lower field.1 = "sec-fetch-user"
        · simp [huser]
        · simp [huser]
      simp only [corrected_cons, List.mem_append, or_imp, forall_and, ih, hfield, List.forall_mem_cons]

theorem length_navigated {line : String} (hline : line ≠ "") (base : List Header) (site : Option String) :
    (base.flatMap (navigated line site)).length =
      (corrected site base).length + base.countP isAcceptEncoding := by
  induction base with
  | nil => rfl
  | cons field base ih =>
      rw [List.flatMap_cons, navigated_line hline, corrected_cons, List.countP_cons]
      simp only [List.length_append, ih]
      split <;> simp <;> omega

-- Without an accept-encoding nothing is added.
theorem flatMap_absent {line : String} (hline : line ≠ "") (site : Option String) {base : List Header}
    (h : base.countP isAcceptEncoding = 0) :
    base.flatMap (navigated line site) = corrected site base := by
  induction base with
  | nil => rfl
  | cons field base ih =>
      rw [List.countP_cons] at h
      have hfield : isAcceptEncoding field = false := by
        by_contra hf
        simp [hf] at h
      rw [List.flatMap_cons, navigated_line hline, corrected_cons, ih (by omega), hfield]
      simp

-- With one of them the field goes behind it, and nothing else moves.
theorem flatMap_once {line : String} (hline : line ≠ "") (site : Option String) {base : List Header}
    (h : base.countP isAcceptEncoding = 1) :
    ∃ before after, base.flatMap (navigated line site) = before ++ ("cookie", line) :: after ∧
      before ++ after = corrected site base := by
  induction base with
  | nil => simp at h
  | cons field base ih =>
      rw [List.countP_cons] at h
      rw [List.flatMap_cons, navigated_line hline, corrected_cons]
      by_cases hf : isAcceptEncoding field = true
      · have hnone : base.countP isAcceptEncoding = 0 := by simpa [hf] using h
        have hrest := flatMap_absent hline site hnone
        exact ⟨navigated "" site field, corrected site base, by simp [hf, hrest], rfl⟩
      · obtain ⟨before, after, hout, hbase⟩ := ih (by simpa [hf] using h)
        refine ⟨navigated "" site field ++ before, after, ?_, ?_⟩
        · simp [hf, hout]
        · rw [List.append_assoc, hbase]

-- The cookies reach the request in one field exactly when there is one place
-- for it, nothing fills the place already, and no end of the line is stripped.
theorem carries_once_iff (s : Session) (headers : Option (List Header)) (bodyHeaders : List Header)
    (jar : CookieJar) (host path : String) (secure : Bool) (now : Rat)
    (cookies : List (String × String)) (redirectSite : Option String) :
    CarriesOnce (corrected redirectSite (baseHeaders s headers)) bodyHeaders
        (cookiePairs jar host path secure now cookies)
        (buildHeaders s headers bodyHeaders (CookieJar.headerFor jar host path secure now).1 cookies
          redirectSite) ↔
      cookiePairs jar host path secure now cookies = [] ∨
        HasPlace (baseHeaders s headers) bodyHeaders ∧
          (CookieJar.selected jar host path secure now = [] ∨ cookies = [] ∨
            edgesKept ("; ".intercalate (cookiePairs jar host path secure now cookies))) := by
  rw [← cookieHeader_eq_iff, buildHeaders]
  generalize hline : cookieHeader (CookieJar.headerFor jar host path secure now).1 cookies = line
  generalize hbase : baseHeaders s headers = base
  by_cases hpairs : cookiePairs jar host path secure now cookies = []
  · have hempty : line = "" := by
      obtain ⟨hs, hc⟩ := List.append_eq_nil_iff.mp hpairs
      have hjar : (CookieJar.headerFor jar host path secure now).1 =
          "; ".intercalate ((CookieJar.selected jar host path secure now).map
            fun c => s!"{c.name}={c.value}") := rfl
      rw [← hline, hjar, hs, cookieHeader, if_pos (by simpa using hc), String.intercalate_nil]
    simp [CarriesOnce, hpairs, hempty, navigated_none]
  · have hne := pairs_nonempty hpairs fun p hp => mem_cookiePairs hp
    have hlive : line ≠ "" := by
      rw [← hline]
      by_cases hc : cookies = []
      · rw [(cookieHeader_eq_iff jar host path secure now cookies).mpr (.inr (.inl hc))]
        exact hne
      · exact cookieHeader_nonempty _ hc
    simp only [CarriesOnce, hpairs, ↓reduceIte, false_or]
    constructor
    · rintro ⟨before, after, field, hout, hcookie, hvalue, horder, hothers⟩
      have hcount : base.countP isAcceptEncoding = 1 := by
        have hlen := congrArg List.length hout
        have hbase := congrArg List.length horder
        simp only [List.length_append, List.length_cons, length_navigated hlive] at hlen hbase
        omega
      obtain ⟨front, back, hfields, hparts⟩ := flatMap_once hlive redirectSite hcount
      refine ⟨⟨hcount, ?_⟩, ?_⟩
      · rw [horder] at hothers
        simp only [List.mem_append, or_imp, forall_and, isCookie_corrected] at hothers ⊢
        exact hothers
      · -- The field that was put in is a cookie field, and there is only one.
        have hin : ("cookie", line) ∈ before ++ field :: after := by
          rw [← hout, hfields]
          simp
        rw [← hvalue]
        rcases List.mem_append.mp hin with hin | hin
        · exact absurd (isCookie_line line) (by simp [hothers _ (List.mem_append_left _ hin)])
        · rcases List.mem_cons.mp hin with rfl | hin
          · rfl
          · exact absurd (isCookie_line line) (by simp [hothers _ (List.mem_append_right _ hin)])
    · rintro ⟨⟨hcount, hothers⟩, rfl⟩
      obtain ⟨before, after, hfields, hparts⟩ := flatMap_once hlive redirectSite hcount
      refine ⟨before, after ++ bodyHeaders,
        ("cookie", "; ".intercalate (cookiePairs jar host path secure now cookies)), ?_,
        isCookie_line _, rfl, ?_, ?_⟩
      · rw [hfields, List.append_assoc, List.cons_append]
      · rw [← List.append_assoc, hparts]
      · rw [← List.append_assoc, hparts]
        simp only [List.mem_append, or_imp, forall_and, isCookie_corrected] at hothers ⊢
        exact hothers

def loginJar : CookieJar :=
  Dict.set .empty ("a.example", "/", "sid") ⟨"sid", "1", "a.example", "/", true, none⟩

-- A list without accept-encoding loses the login.
theorem login_lost :
    ¬ CarriesOnce (corrected none (baseHeaders { headers := [("user-agent", "x")] } none)) []
      (cookiePairs loginJar "a.example" "/" true 0 [])
      (buildHeaders { headers := [("user-agent", "x")] } none []
        (CookieJar.headerFor loginJar "a.example" "/" true 0).1 [] none) := by
  have hpairs : cookiePairs loginJar "a.example" "/" true 0 [] = ["sid=1"] := by decide +kernel
  have hout : buildHeaders { headers := [("user-agent", "x")] } none []
      (CookieJar.headerFor loginJar "a.example" "/" true 0).1 [] none = [("user-agent", "x")] := by
    decide +kernel
  have hbase : corrected none (baseHeaders { headers := [("user-agent", "x")] } none) =
      [("user-agent", "x")] := by decide +kernel
  rw [hpairs, hout, hbase, CarriesOnce, if_neg (by simp)]
  rintro ⟨before, after, field, hfields, _, _, horder, _⟩
  have hlen := congrArg List.length hfields
  have hbase := congrArg List.length horder
  simp only [List.length_append, List.length_cons, List.length_nil] at hlen hbase
  omega

end NeverFox.Client
