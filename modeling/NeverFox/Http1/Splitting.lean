import NeverFox.Http1.Grammar
import NeverFox.Client.Redirect

namespace NeverFox.Http1

open Client (utf8)

-- The fields that `request` puts behind those it is given.
def added (headers : List Header) (data : Bytes) : List Header :=
  (if hasName headers "connection" then [] else [("Connection", "keep-alive")]) ++
    if data ≠ [] ∧ hasName headers "content-length" = false then
      [("Content-Length", toString data.length)]
    else []

def sentFields (authority : String) (headers : List Header) (data : Bytes) : List Header :=
  ("Host", authority) :: (headers ++ added headers data)

def wire (fields : List Header) : List Field := fields.map fun field => (utf8 field.1, utf8 field.2)

-- The request that the arguments describe.
def meant (method path authority : String) (headers : List Header) (data : Bytes) : WireRequest :=
  ⟨utf8 method, utf8 path, wire (sentFields authority headers data), data⟩

theorem utf8_append (s t : String) : utf8 (s ++ t) = utf8 s ++ utf8 t := by
  simp [utf8]

theorem utf8_eq_flatMap (text : String) : utf8 text = text.toList.flatMap String.utf8EncodeChar := by
  rw [utf8, String.toUTF8_eq_toByteArray, ← String.utf8Encode_toList, List.utf8Encode]
  simp

theorem utf8EncodeChar_ascii {c : Char} (hc : c.toNat < 128) :
    String.utf8EncodeChar c = [UInt8.ofNat c.toNat] := by
  have hle : c.val.toNat ≤ 0x7f := Nat.le_of_lt_succ hc
  unfold String.utf8EncodeChar
  simp only [hle, ↓reduceIte]
  rfl

theorem utf8EncodeChar_wide {c : Char} (hc : 128 ≤ c.toNat) :
    ∃ b ∈ String.utf8EncodeChar c, 128 ≤ b.toNat := by
  have hgt : ¬c.val.toNat ≤ 0x7f := Nat.not_le_of_lt hc
  unfold String.utf8EncodeChar
  simp only [hgt, ↓reduceIte]
  split
  · refine ⟨_, List.mem_cons_self, ?_⟩
    rw [UInt8.toNat_ofNat']
    omega
  · split
    · refine ⟨_, List.mem_cons_self, ?_⟩
      rw [UInt8.toNat_ofNat']
      omega
    · refine ⟨_, List.mem_cons_self, ?_⟩
      rw [UInt8.toNat_ofNat']
      omega

theorem utf8_ascii {text : String} (h : ∀ c ∈ text.toList, c.toNat < 128) : utf8 text = ascii text := by
  rw [utf8_eq_flatMap, ascii, List.map_eq_flatMap]
  exact List.flatMap_congr fun c hc => utf8EncodeChar_ascii (h c hc)

theorem ascii_of_utf8 {text : String} (h : ∀ b ∈ utf8 text, b.toNat < 128) : ∀ c ∈ text.toList, c.toNat < 128 := by
  intro c hc
  by_contra hwide
  obtain ⟨b, hb, hbig⟩ := utf8EncodeChar_wide (Nat.not_lt.mp hwide)
  rw [utf8_eq_flatMap] at h
  have hsmall := h b (List.mem_flatMap.mpr ⟨c, hc, hb⟩)
  omega

theorem utf8_lines (line : String) (lines : List String) :
    utf8 ("\r\n".intercalate (line :: lines) ++ "\r\n\r\n") =
      (line :: lines).flatMap (fun line => utf8 line ++ crlf) ++ crlf := by
  have hone : utf8 "\r\n" = crlf := by decide +kernel
  have htwo : utf8 "\r\n\r\n" = crlf ++ crlf := by decide +kernel
  induction lines generalizing line with
  | nil =>
      rw [String.intercalate_singleton, utf8_append, htwo]
      simp
  | cons next rest ih =>
      have hrest := ih next
      rw [utf8_append] at hrest
      rw [String.intercalate_cons_cons, utf8_append, utf8_append, utf8_append, hone, List.flatMap_cons,
        List.append_assoc, hrest]
      simp

theorem requestLines_eq (method path authority : String) (headers : List Header) (data : Bytes) :
    requestLines method path authority headers data = (method ++ " " ++ path ++ " HTTP/1.1") ::
      (sentFields authority headers data).map fun field => field.1 ++ ": " ++ field.2 := by
  have hlength : "Content-Length: " = "Content-Length" ++ ": " := by decide
  have hhost : "Host: " = "Host" ++ ": " := by decide
  have halive : "Connection: keep-alive" = "Connection" ++ ": " ++ "keep-alive" := by decide
  unfold requestLines sentFields added
  rw [hhost, halive, hlength]
  simp only [List.map_append, List.map_cons, List.cons_append, List.nil_append, List.append_assoc,
    apply_ite (List.map _), List.map_nil]
  rfl

theorem requestBytes_eq (method path authority : String) (headers : List Header) (data : Bytes) :
    requestBytes method path authority headers data = (meant method path authority headers data).encode := by
  have hblank : utf8 " " = [0x20] := by decide +kernel
  have hversion : utf8 " HTTP/1.1" = 0x20 :: ascii "HTTP/1.1" := by decide +kernel
  have hcolon : utf8 ": " = [COLON, 0x20] := by decide +kernel
  have hlines := utf8_lines (method ++ " " ++ path ++ " HTTP/1.1")
    ((sentFields authority headers data).map fun field => field.1 ++ ": " ++ field.2)
  rw [← requestLines_eq] at hlines
  unfold requestBytes meant WireRequest.encode wire encodeLine
  rw [utf8] at hlines
  rw [hlines, requestLines_eq, List.flatMap_cons, List.flatMap_map, List.flatMap_map]
  simp only [utf8_append, hblank, hversion, hcolon, List.append_assoc, List.cons_append, List.nil_append]

theorem valuesNamed_append (name : String) (front back : List Field) :
    valuesNamed name (front ++ back) = valuesNamed name front ++ valuesNamed name back := by
  rw [valuesNamed, List.filter_append, List.map_append]
  rfl

theorem tchar_ascii {text : Bytes} (h : Token text) : ∀ b ∈ text, b.toNat < 128 := by
  have hall : ∀ n < 256, isTchar (UInt8.ofNat n) = true → n < 128 := by decide +kernel
  intro b hb
  apply hall b.toNat b.toNat_lt
  rw [UInt8.ofNat_toNat]
  exact h.2 b hb

theorem lowerByte_ascii {c : Char} (hc : c.toNat < 128) :
    lowerByte (UInt8.ofNat c.toNat) = UInt8.ofNat (PyText.lowerChar c).toNat := by
  have hall : ∀ n < 128, lowerByte (UInt8.ofNat n) = UInt8.ofNat (PyText.lowerChar (Char.ofNat n)).toNat := by
    decide +kernel
  rw [hall c.toNat hc, Char.ofNat_toNat]

-- On names of the grammar the comparison of the code is the one of the parser.
theorem map_lowerByte {name : String} (h : Token (utf8 name)) :
    (utf8 name).map lowerByte = ascii (PyText.lower name) := by
  have hascii := ascii_of_utf8 (tchar_ascii h)
  rw [utf8_ascii hascii, ascii, ascii, PyText.lower_ascii hascii, String.toList_ofList, List.map_map,
    List.map_map]
  exact List.map_congr_left fun c hc => lowerByte_ascii (hascii c hc)

theorem valuesNamed_of_hasName {headers : List Header} {name : String}
    (h : ∀ field ∈ headers, Token (utf8 field.1)) (hn : hasName headers name = true) :
    valuesNamed name (wire headers) ≠ [] := by
  obtain ⟨field, hf, heq⟩ := List.any_eq_true.mp hn
  apply List.ne_nil_of_mem (a := utf8 field.2)
  refine List.mem_map.mpr ⟨(utf8 field.1, utf8 field.2), ?_, rfl⟩
  refine List.mem_filter.mpr ⟨List.mem_map.mpr ⟨field, hf, rfl⟩, ?_⟩
  rw [decide_eq_true_eq]
  dsimp only
  rw [map_lowerByte (h field hf), of_decide_eq_true heq]

theorem decimal_plain (n : Nat) : utf8 (toString n) = ascii (toString n) ∧
    ∀ b ∈ utf8 (toString n), isFieldByte b = true ∧ isOws b = false ∧ b ≠ 0x2c := by
  have hrange : ∀ c ∈ (toString n).toList, 48 ≤ c.toNat ∧ c.toNat ≤ 57 := by
    intro c hc
    rw [Nat.toString_eq_repr, Nat.toList_repr] at hc
    exact digits_plain n c hc
  have hall : ∀ k < 58, 48 ≤ k → isFieldByte (UInt8.ofNat k) = true ∧ isOws (UInt8.ofNat k) = false ∧
      UInt8.ofNat k ≠ 0x2c := by decide +kernel
  have heq : utf8 (toString n) = ascii (toString n) := utf8_ascii fun c hc => by
    have hc := hrange c hc
    omega
  refine ⟨heq, ?_⟩
  rw [heq]
  intro b hb
  obtain ⟨c, hc, rfl⟩ := List.mem_map.mp hb
  have hc := hrange c hc
  exact hall c.toNat (by omega) hc.1

theorem decimal_trimmed (n : Nat) : FieldValue (utf8 (toString n)) := by
  have hplain := (decimal_plain n).2
  refine ⟨fun b hb => (hplain b hb).1, ?_⟩
  have hfront : (utf8 (toString n)).dropWhile isOws = utf8 (toString n) := by
    rw [List.dropWhile_eq_self_iff]
    intro hpos
    simpa using (hplain _ (List.getElem_mem hpos)).2.1
  rw [trimOws, hfront, List.rdropWhile_eq_self_iff]
  intro hne
  simpa using (hplain _ (List.getLast_mem hne)).2.1

theorem announces_decimal (n : Nat) : Announces (utf8 (toString n)) n := by
  have hlatin : PyText.latin1 (utf8 (toString n)) = Nat.toDigits 10 n := by
    rw [(decimal_plain n).1, latin1_ascii, Nat.toString_eq_repr, Nat.toList_repr]
    intro c hc
    rw [Nat.toString_eq_repr, Nat.toList_repr] at hc
    have hc := digits_plain n c hc
    omega
  refine ⟨?_, ?_, ?_⟩
  · intro hnil
    rw [hnil] at hlatin
    exact Nat.toDigits_ne_nil hlatin.symm
  · intro b hb
    apply (PyText.isDigit_toDigits (n := n) _).1
    rw [← hlatin]
    exact List.mem_map_of_mem hb
  · rw [hlatin, PyText.ofDigits_toDigits]

theorem elements_decimal (n : Nat) : elements (utf8 (toString n)) = [utf8 (toString n)] := by
  have hcomma : (0x2c : UInt8) ∉ utf8 (toString n) := fun hm => ((decimal_plain n).2 _ hm).2.2 rfl
  rw [elements, List.splitOn_eq_singleton hcomma, List.map_cons, (decimal_trimmed n).trimmed, List.map_nil]

-- The arguments keep to the grammar of the places they are written to, leave
-- the framing to `request`, and state no length but that of the body.
structure Regular (method path authority : String) (headers : List Header) (data : Bytes) : Prop where
  method : Token (utf8 method)
  target : Target (utf8 path)
  authority : FieldValue (utf8 authority)
  fields : ∀ field ∈ headers, Token (utf8 field.1) ∧ FieldValue (utf8 field.2)
  host : valuesNamed "host" (wire headers) = []
  coding : valuesNamed "transfer-encoding" (wire headers) = []
  length : ∀ element ∈ lengths (wire headers), Announces element data.length

theorem wire_sentFields (authority : String) (headers : List Header) (data : Bytes) :
    wire (sentFields authority headers data) =
      [(ascii "Host", utf8 authority)] ++ wire headers ++ wire (added headers data) := by
  have hhost : utf8 "Host" = ascii "Host" := by decide +kernel
  rw [wire, sentFields, List.map_cons, List.map_append, hhost]
  rfl

theorem valuesNamed_added (headers : List Header) (data : Bytes) :
    valuesNamed "host" (wire (added headers data)) = [] ∧
      valuesNamed "transfer-encoding" (wire (added headers data)) = [] ∧
      valuesNamed "content-length" (wire (added headers data)) =
        if data ≠ [] ∧ hasName headers "content-length" = false then [utf8 (toString data.length)] else [] := by
  have hconnection : (utf8 "Connection").map lowerByte = ascii "connection" := by decide +kernel
  have hlength : (utf8 "Content-Length").map lowerByte = ascii "content-length" := by decide +kernel
  have hnames : ascii "connection" ≠ ascii "host" ∧ ascii "connection" ≠ ascii "transfer-encoding" ∧
      ascii "connection" ≠ ascii "content-length" ∧ ascii "content-length" ≠ ascii "host" ∧
      ascii "content-length" ≠ ascii "transfer-encoding" := by decide
  obtain ⟨h₁, h₂, h₃, h₄, h₅⟩ := hnames
  unfold added
  by_cases hc : hasName headers "connection" = true <;>
    by_cases hl : data ≠ [] ∧ hasName headers "content-length" = false <;>
    simp [hc, hl, wire, valuesNamed, hconnection, hlength, h₁, h₂, h₃, h₄, h₅]

theorem added_parts (headers : List Header) (data : Bytes) :
    ∀ field ∈ wire (added headers data), Token field.1 ∧ FieldValue field.2 := by
  have halive : Token (utf8 "Connection") ∧ FieldValue (utf8 "keep-alive") := by decide +kernel
  have hlength : Token (utf8 "Content-Length") := by decide +kernel
  have hvalue := decimal_trimmed data.length
  rw [Nat.toString_eq_repr] at hvalue
  unfold added
  by_cases hc : hasName headers "connection" = true <;>
    by_cases hl : data ≠ [] ∧ hasName headers "content-length" = false <;>
    simp [hc, hl, wire, halive, hlength, hvalue]

theorem values_meant (name : String) (authority : String) (headers : List Header) (data : Bytes) :
    valuesNamed name (wire (sentFields authority headers data)) =
      valuesNamed name [(ascii "Host", utf8 authority)] ++
        (valuesNamed name (wire headers) ++ valuesNamed name (wire (added headers data))) := by
  rw [wire_sentFields, valuesNamed_append, valuesNamed_append, List.append_assoc]

-- The fields bound exactly the body that is given.
theorem body_meant_iff {authority : String} {headers : List Header} {data : Bytes}
    (ht : ∀ field ∈ headers, Token (utf8 field.1)) :
    BodyOf (wire (sentFields authority headers data)) data data ↔
      valuesNamed "transfer-encoding" (wire headers) = [] ∧
        ∀ element ∈ lengths (wire headers), Announces element data.length := by
  have hfirst : valuesNamed "transfer-encoding" [(ascii "Host", utf8 authority)] = [] ∧
      valuesNamed "content-length" [(ascii "Host", utf8 authority)] = [] := by
    have hnames : (ascii "Host").map lowerByte ≠ ascii "transfer-encoding" ∧
        (ascii "Host").map lowerByte ≠ ascii "content-length" := by decide
    simp [valuesNamed, hnames]
  obtain ⟨_, hcoding, hlength⟩ := valuesNamed_added headers data
  have hte := values_meant "transfer-encoding" authority headers data
  have hcl := values_meant "content-length" authority headers data
  rw [hfirst.1, hcoding, List.nil_append, List.append_nil] at hte
  rw [hfirst.2, hlength, List.nil_append] at hcl
  have hlengths : lengths (wire (sentFields authority headers data)) = lengths (wire headers) ++
      if data ≠ [] ∧ hasName headers "content-length" = false then [utf8 (toString data.length)] else [] := by
    rw [lengths, hcl, List.flatMap_append]
    split
    · rw [List.flatMap_singleton, elements_decimal]
      rfl
    · rfl
  constructor
  · intro h
    cases h with
    | chunked _ _ _ hb => exact absurd (chunkedBody_length hb) (Nat.lt_irrefl _)
    | counted _ hc _ hall =>
        rw [hlengths] at hall
        exact ⟨hte ▸ hc, fun element he => hall element (List.mem_append_left _ he)⟩
    | absent hc hl =>
        rw [hcl, List.append_eq_nil_iff] at hl
        refine ⟨hte ▸ hc, ?_⟩
        rw [lengths, hl.1]
        simp
  · rintro ⟨hc, hall⟩
    by_cases hnone : valuesNamed "content-length" (wire (sentFields authority headers data)) = []
    · obtain ⟨hgiven, hadded⟩ := List.append_eq_nil_iff.mp (hcl ▸ hnone)
      have hno : hasName headers "content-length" = false := by
        rw [Bool.eq_false_iff]
        intro hname
        exact valuesNamed_of_hasName ht hname hgiven
      obtain rfl : data = [] := by
        by_contra hne
        rw [if_pos ⟨hne, hno⟩] at hadded
        cases hadded
      exact .absent (hte.trans hc) hnone
    · refine .counted data (hte.trans hc) hnone ?_
      rw [hlengths]
      intro element he
      rcases List.mem_append.mp he with he | he
      · exact hall element he
      · split at he
        · rw [List.mem_singleton.mp he]
          exact announces_decimal _
        · cases he

theorem sendable_meant_iff (method path authority : String) (headers : List Header) (data : Bytes) :
    (meant method path authority headers data).Sendable ↔ Regular method path authority headers data := by
  have hhostName : Token (ascii "Host") := by decide
  have hone : valuesNamed "host" [(ascii "Host", utf8 authority)] = [utf8 authority] := by
    have hname : (ascii "Host").map lowerByte = ascii "host" := by decide
    simp [valuesNamed, hname]
  have hhost := values_meant "host" authority headers data
  rw [hone, (valuesNamed_added headers data).1, List.append_nil] at hhost
  have hfields : (∀ field ∈ wire (sentFields authority headers data), Token field.1 ∧ FieldValue field.2) ↔
      FieldValue (utf8 authority) ∧ ∀ field ∈ headers, Token (utf8 field.1) ∧ FieldValue (utf8 field.2) := by
    have hadded := added_parts headers data
    have hgiven : (∀ field ∈ wire headers, Token field.1 ∧ FieldValue field.2) ↔
        ∀ field ∈ headers, Token (utf8 field.1) ∧ FieldValue (utf8 field.2) := List.forall_mem_map
    rw [wire_sentFields, List.forall_mem_append, List.forall_mem_append, List.forall_mem_singleton, hgiven]
    exact ⟨fun h => ⟨h.1.1.2, h.1.2⟩, fun h => ⟨⟨⟨hhostName, h.1⟩, h.2⟩, hadded⟩⟩
  constructor
  · intro h
    obtain ⟨hauthority, hgiven⟩ := hfields.mp h.fields
    obtain ⟨hcoding, hlength⟩ := (body_meant_iff fun field hf => (hgiven field hf).1).mp h.body
    refine ⟨h.method, h.target, hauthority, hgiven, ?_, hcoding, hlength⟩
    have hcount : (valuesNamed "host" (wire (sentFields authority headers data))).length = 1 := h.host
    rw [hhost, List.length_append, List.length_singleton] at hcount
    exact List.length_eq_zero_iff.mp (by omega)
  · intro h
    refine ⟨h.method, h.target, hfields.mpr ⟨h.authority, h.fields⟩, ?_,
      (body_meant_iff fun field hf => (h.fields field hf).1).mpr ⟨h.coding, h.length⟩⟩
    have hcount : (valuesNamed "host" (wire (sentFields authority headers data))).length = 1 := by
      rw [hhost, h.host]
      rfl
    exact hcount

-- The exchange raises whatever the transport does, or hands it octets that are
-- the request meant and no other.
def Unsplit (method path authority : String) (headers : List Header) (body : Body) : Prop :=
  (∃ exc, ∀ tp, request tp method path authority headers body = some (.error exc)) ∨
    ∃ data, octets body = some data ∧
      ∀ r, Parses (requestBytes method path authority headers data) r ↔
        r = meant method path authority headers data

-- Two exceptions of the write cannot both be the one that is raised.
theorem octets_of_raises {method path authority : String} {headers : List Header} {body : Body} {exc : Exn}
    (h : ∀ tp, request tp method path authority headers body = some (.error exc)) : octets body = none := by
  cases ho : octets body with
  | none => rfl
  | some data =>
      have hvalue := h ⟨fun _ => some .valueError, []⟩
      have htype := h ⟨fun _ => some .typeError, []⟩
      simp only [request, ho, Option.some.injEq, Except.error.injEq] at hvalue htype
      rw [← hvalue] at htype
      cases htype

-- A request is raised on or sent as what is meant exactly when it has no octets
-- for a body or its parts are regular.
theorem unsplit_iff (method path authority : String) (headers : List Header) (body : Body) :
    Unsplit method path authority headers body ↔
      octets body = none ∨ ∃ data, octets body = some data ∧ Regular method path authority headers data := by
  have hparse : ∀ data, (∀ r, Parses (requestBytes method path authority headers data) r ↔
      r = meant method path authority headers data) ↔ Regular method path authority headers data := by
    intro data
    rw [requestBytes_eq, ← sendable_meant_iff, ← WireRequest.parses_encode_iff]
    constructor
    · intro h
      exact (h _).mpr rfl
    · intro h r
      constructor
      · exact fun hr => parses_unique hr h
      · rintro rfl
        exact h
  constructor
  · rintro (⟨exc, hraise⟩ | ⟨data, ho, hr⟩)
    · exact .inl (octets_of_raises hraise)
    · exact .inr ⟨data, ho, (hparse data).mp hr⟩
  · rintro (hnone | ⟨data, ho, hr⟩)
    · refine .inl ⟨.typeError, fun tp => ?_⟩
      simp only [request, hnone]
    · exact .inr ⟨data, ho, (hparse data).mpr hr⟩

-- A quoted value whose octal escapes SimpleCookie decodes to a line end.
def octalSetCookie : String := "a=\"x\\015\\012Evil: 1\""

def octalLoad (raw : String) : Option (List Client.Morsel) :=
  if raw = octalSetCookie then some [⟨"a", "x\r\nEvil: 1", "", "", false, ""⟩] else none

def octalCookie : String :=
  (Client.CookieJar.headerFor
    (Client.CookieJar.setFromResponse octalLoad Dict.empty "a.example" 0 [octalSetCookie]).1
    "a.example" "/" false 0).1

-- What the peer reads: one field more than was given.
def injected : WireRequest :=
  ⟨ascii "GET", ascii "/",
    [(ascii "Host", ascii "a.example"), (ascii "cookie", ascii "a=x"), (ascii "Evil", ascii "1"),
      (ascii "Connection", ascii "keep-alive")], []⟩

theorem injected_sendable : injected.Sendable := by
  refine ⟨by decide, by decide, by decide, by decide, ?_⟩
  exact .absent (by decide) (by decide)

theorem octalCookie_splits :
    octalCookie = "a=x\r\nEvil: 1" ∧
      Parses (requestBytes "GET" "/" "a.example" [("cookie", octalCookie)] []) injected ∧
      ¬Unsplit "GET" "/" "a.example" [("cookie", octalCookie)] (.bytes []) := by
  have hcookie : octalCookie = "a=x\r\nEvil: 1" := by decide +kernel
  rw [hcookie]
  have hbytes : requestBytes "GET" "/" "a.example" [("cookie", "a=x\r\nEvil: 1")] [] = injected.encode := by
    decide +kernel
  have hparse : Parses (requestBytes "GET" "/" "a.example" [("cookie", "a=x\r\nEvil: 1")] []) injected := by
    rw [hbytes]
    exact injected.parses_encode_iff.mpr injected_sendable
  refine ⟨rfl, hparse, ?_⟩
  rintro (⟨exc, hraise⟩ | ⟨data, ho, hread⟩)
  · cases octets_of_raises hraise
  · obtain rfl : [] = data := Option.some.inj ho
    have hmeant := congrArg WireRequest.fields ((hread injected).mp hparse)
    exact absurd hmeant (by decide +kernel)

end NeverFox.Http1
