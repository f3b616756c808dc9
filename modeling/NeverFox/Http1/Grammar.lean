import NeverFox.Http1.RoundTrip

namespace NeverFox.Http1

-- RFC 9110, section 5.6.2.
def isTchar (b : UInt8) : Bool :=
  (0x30 ≤ b && b ≤ 0x39) || (0x41 ≤ b && b ≤ 0x5a) || (0x61 ≤ b && b ≤ 0x7a) ||
    [0x21, 0x23, 0x24, 0x25, 0x26, 0x27, 0x2a, 0x2b, 0x2d, 0x2e, 0x5e, 0x5f, 0x60, 0x7c, 0x7e].contains b

def isVisible (b : UInt8) : Bool := 0x21 ≤ b && b ≤ 0x7e

def isOws (b : UInt8) : Bool := b = 0x20 || b = 0x09

def isFieldByte (b : UInt8) : Bool := isVisible b || isOws b || 0x80 ≤ b

def trimOws (text : Bytes) : Bytes := (text.dropWhile isOws).rdropWhile isOws

def lowerByte (b : UInt8) : UInt8 := if 0x41 ≤ b ∧ b ≤ 0x5a then b + 0x20 else b

abbrev Field := Bytes × Bytes

def Token (text : Bytes) : Prop := text ≠ [] ∧ ∀ b ∈ text, isTchar b = true

-- What a recipient is left with of a field value: no blanks at the ends.
structure FieldValue (text : Bytes) : Prop where
  octets : ∀ b ∈ text, isFieldByte b = true
  trimmed : trimOws text = text

instance (text : Bytes) : Decidable (Token text) :=
  decidable_of_iff (text ≠ [] ∧ text.all isTchar = true) (by simp only [Token, List.all_eq_true])

instance (text : Bytes) : Decidable (FieldValue text) :=
  decidable_of_iff (text.all isFieldByte = true ∧ trimOws text = text)
    ⟨fun h => ⟨List.all_eq_true.mp h.1, h.2⟩, fun h => ⟨List.all_eq_true.mpr h.octets, h.trimmed⟩⟩

-- The target is taken as visible octets; the URI in it is not looked into.
def Target (text : Bytes) : Prop := text ≠ [] ∧ ∀ b ∈ text, isVisible b = true

instance (text : Bytes) : Decidable (Target text) :=
  decidable_of_iff (text ≠ [] ∧ text.all isVisible = true) (by simp only [Target, List.all_eq_true])

-- `method SP request-target SP HTTP-version`.
def requestLineOf (line : Bytes) : Option (Bytes × Bytes) :=
  match line.splitOn 0x20 with
  | [method, target, version] =>
      if Token method ∧ Target target ∧ version = ascii "HTTP/1.1" then some (method, target) else none
  | _ => none

-- `field-name ":" OWS field-value OWS`.
def fieldOf (line : Bytes) : Option Field :=
  match line.dropWhile (· ≠ COLON) with
  | [] => none
  | _ :: value =>
      if Token (line.takeWhile (· ≠ COLON)) ∧ value.all isFieldByte = true then
        some (line.takeWhile (· ≠ COLON), trimOws value)
      else none

inductive FieldLines : Bytes → List Field → Bytes → Prop
  | blank (bytes content : Bytes) (hs : splitLine bytes = some ([], content)) : FieldLines bytes [] content
  | field (bytes line rest content : Bytes) (field : Field) (fields : List Field)
      (hs : splitLine bytes = some (line, rest)) (hf : fieldOf line = some field)
      (hr : FieldLines rest fields content) : FieldLines bytes (field :: fields) content

-- Field names are compared without regard to case.
def valuesNamed (name : String) (fields : List Field) : List Bytes :=
  (fields.filter fun field => field.1.map lowerByte = ascii name).map Prod.snd

def elements (value : Bytes) : List Bytes := (value.splitOn 0x2c).map trimOws

def codings (fields : List Field) : List Bytes :=
  (valuesNamed "transfer-encoding" fields).flatMap fun value => (elements value).map (·.map lowerByte)

def lengths (fields : List Field) : List Bytes := (valuesNamed "content-length" fields).flatMap elements

-- 1*DIGIT, and the number they denote.
def Announces (element : Bytes) (n : Nat) : Prop :=
  element ≠ [] ∧ (∀ b ∈ element, PyText.isDigit 10 (Char.ofNat b.toNat) = true) ∧
    PyText.ofDigits 10 (PyText.latin1 element) = n

inductive ChunkedBody : Bytes → Bytes → Prop
  | last (bytes line rest : Bytes) (trailers : List Field) (hs : splitLine bytes = some (line, rest))
      (hz : SizeLine line 0) (ht : FieldLines rest trailers []) : ChunkedBody bytes []
  | chunk (bytes line data rest body : Bytes) (hs : splitLine bytes = some (line, data ++ crlf ++ rest))
      (hd : data ≠ []) (hn : SizeLine line data.length) (hr : ChunkedBody rest body) :
      ChunkedBody bytes (data ++ body)

-- RFC 9112, section 6.3, for a request: the body that the octets behind the
-- header section are, with none left over.
inductive BodyOf (fields : List Field) : Bytes → Bytes → Prop
  | chunked (content body : Bytes) (hc : (codings fields).getLast? = some (ascii "chunked"))
      (hb : ChunkedBody content body) : BodyOf fields content body
  | counted (content : Bytes) (hc : valuesNamed "transfer-encoding" fields = [])
      (hne : valuesNamed "content-length" fields ≠ [])
      (hall : ∀ element ∈ lengths fields, Announces element content.length) : BodyOf fields content content
  | absent (hc : valuesNamed "transfer-encoding" fields = [])
      (hl : valuesNamed "content-length" fields = []) : BodyOf fields [] []

structure WireRequest where
  method : Bytes
  target : Bytes
  fields : List Field
  body : Bytes

-- The octets are this request and nothing else.
structure Parses (bytes : Bytes) (request : WireRequest) : Prop where
  head : ∃ line rest content, splitLine bytes = some (line, rest) ∧
    requestLineOf line = some (request.method, request.target) ∧ FieldLines rest request.fields content ∧
    BodyOf request.fields content request.body
  host : (valuesNamed "host" request.fields).length = 1

def encodeLine (field : Field) : Bytes := field.1 ++ COLON :: 0x20 :: field.2

def WireRequest.encode (r : WireRequest) : Bytes :=
  r.method ++ 0x20 :: (r.target ++ 0x20 :: ascii "HTTP/1.1") ++ crlf ++
    r.fields.flatMap (fun field => encodeLine field ++ crlf) ++ crlf ++ r.body

-- Every part stands in its line as it is, and the fields bound the body.
structure WireRequest.Sendable (r : WireRequest) : Prop where
  method : Token r.method
  target : Target r.target
  fields : ∀ field ∈ r.fields, Token field.1 ∧ FieldValue field.2
  host : (valuesNamed "host" r.fields).length = 1
  body : BodyOf r.fields r.body r.body

theorem fieldLines_unique {bytes content₁ content₂ : Bytes} {fields₁ fields₂ : List Field}
    (h₁ : FieldLines bytes fields₁ content₁) (h₂ : FieldLines bytes fields₂ content₂) :
    fields₁ = fields₂ ∧ content₁ = content₂ := by
  have hempty : fieldOf [] = none := rfl
  induction h₁ generalizing fields₂ content₂ with
  | blank bytes content hs =>
      cases h₂ with
      | blank _ _ hs' =>
          obtain ⟨_, rfl⟩ := Prod.mk.inj (Option.some.inj (hs.symm.trans hs'))
          exact ⟨rfl, rfl⟩
      | field _ line rest _ field fields hs' hf _ =>
          obtain ⟨rfl, _⟩ := Prod.mk.inj (Option.some.inj (hs.symm.trans hs'))
          rw [hempty] at hf
          cases hf
  | field bytes line rest content field fields hs hf _ ih =>
      cases h₂ with
      | blank _ _ hs' =>
          obtain ⟨rfl, _⟩ := Prod.mk.inj (Option.some.inj (hs.symm.trans hs'))
          rw [hempty] at hf
          cases hf
      | field _ line' rest' _ field' fields' hs' hf' hr' =>
          obtain ⟨rfl, rfl⟩ := Prod.mk.inj (Option.some.inj (hs.symm.trans hs'))
          obtain rfl : field = field' := Option.some.inj (hf.symm.trans hf')
          obtain ⟨rfl, rfl⟩ := ih hr'
          exact ⟨rfl, rfl⟩

theorem sizeLine_unique {line : Bytes} {m n : Nat} (hm : SizeLine line m) (hn : SizeLine line n) : m = n := by
  have h := (chunkSize_of_sizeLine hm).symm.trans (chunkSize_of_sizeLine hn)
  exact Int.ofNat.inj (Option.some.inj h)

theorem chunkedBody_unique {bytes body₁ body₂ : Bytes} (h₁ : ChunkedBody bytes body₁)
    (h₂ : ChunkedBody bytes body₂) : body₁ = body₂ := by
  induction h₁ generalizing body₂ with
  | last bytes line rest trailers hs hz _ =>
      cases h₂ with
      | last => rfl
      | chunk _ line' data rest' body hs' hd hn _ =>
          obtain ⟨rfl, _⟩ := Prod.mk.inj (Option.some.inj (hs.symm.trans hs'))
          exact absurd (sizeLine_unique hz hn).symm (mt List.length_eq_zero_iff.mp hd)
  | chunk bytes line data rest body hs hd hn _ ih =>
      cases h₂ with
      | last _ line' rest' trailers hs' hz _ =>
          obtain ⟨rfl, _⟩ := Prod.mk.inj (Option.some.inj (hs.symm.trans hs'))
          exact absurd (sizeLine_unique hn hz) (mt List.length_eq_zero_iff.mp hd)
      | chunk _ line' data' rest' body' hs' _ hn' hr' =>
          obtain ⟨rfl, htail⟩ := Prod.mk.inj (Option.some.inj (hs.symm.trans hs'))
          rw [List.append_assoc, List.append_assoc] at htail
          obtain ⟨rfl, hbehind⟩ := List.append_inj htail (sizeLine_unique hn hn')
          obtain rfl := List.append_cancel_left hbehind
          rw [ih hr']

-- The framing of chunks is never part of the body.
theorem chunkedBody_length {bytes body : Bytes} (h : ChunkedBody bytes body) : body.length < bytes.length := by
  induction h with
  | last bytes line rest trailers hs _ _ =>
      have hlen := splitLine_length bytes line rest hs
      rw [List.length_nil]
      omega
  | chunk bytes line data rest body hs _ _ _ ih =>
      have hlen := splitLine_length bytes line _ hs
      simp only [List.length_append] at hlen ⊢
      omega

theorem codings_nil {fields : List Field} (h : valuesNamed "transfer-encoding" fields = []) :
    codings fields = [] := by
  rw [codings, h, List.flatMap_nil]

theorem bodyOf_unique {fields : List Field} {content body₁ body₂ : Bytes} (h₁ : BodyOf fields content body₁)
    (h₂ : BodyOf fields content body₂) : body₁ = body₂ := by
  cases h₁ with
  | chunked _ _ hc hb =>
      cases h₂ with
      | chunked _ _ _ hb' => exact chunkedBody_unique hb hb'
      | counted _ hc' => simp [codings_nil hc'] at hc
      | absent hc' => simp [codings_nil hc'] at hc
  | counted _ hc hne =>
      cases h₂ with
      | chunked _ _ hc' => simp [codings_nil hc] at hc'
      | counted => rfl
      | absent => rfl
  | absent hc hl =>
      cases h₂ with
      | chunked _ _ hc' => simp [codings_nil hc] at hc'
      | counted => rfl
      | absent => rfl

-- Octets are read as one request at most.
theorem parses_unique {bytes : Bytes} {r₁ r₂ : WireRequest} (h₁ : Parses bytes r₁) (h₂ : Parses bytes r₂) :
    r₁ = r₂ := by
  obtain ⟨line, rest, content, hs, hl, hf, hb⟩ := h₁.head
  obtain ⟨line', rest', content', hs', hl', hf', hb'⟩ := h₂.head
  obtain ⟨rfl, rfl⟩ := Prod.mk.inj (Option.some.inj (hs.symm.trans hs'))
  obtain ⟨hmethod, htarget⟩ := Prod.mk.inj (Option.some.inj (hl.symm.trans hl'))
  obtain ⟨hfields, rfl⟩ := fieldLines_unique hf hf'
  rw [hfields] at hb
  have hbody := bodyOf_unique hb hb'
  cases r₁
  cases r₂
  dsimp only at hmethod htarget hfields hbody
  rw [hmethod, htarget, hfields, hbody]

theorem trimOws_trimOws (text : Bytes) : trimOws (trimOws text) = trimOws text := by
  have hfront := List.rdropWhile_prefix isOws (text.dropWhile isOws)
  have hdrop : (trimOws text).dropWhile isOws = trimOws text := by
    rw [List.dropWhile_eq_self_iff]
    intro hpos
    have hlong := Nat.lt_of_lt_of_le hpos hfront.length_le
    have hhead : (trimOws text)[0] = (text.dropWhile isOws)[0] := hfront.getElem hpos
    rw [hhead]
    exact List.dropWhile_get_zero_not isOws text hlong
  calc trimOws (trimOws text)
    _ = (trimOws text).rdropWhile isOws := by rw [trimOws, hdrop]
    _ = trimOws text := List.rdropWhile_idempotent isOws _

theorem trimOws_subset (text : Bytes) : trimOws text ⊆ text := by
  have hfront := List.rdropWhile_prefix isOws (text.dropWhile isOws)
  have hback := List.dropWhile_suffix isOws (l := text)
  exact List.Subset.trans hfront.subset hback.subset

theorem fieldOf_sound {line : Bytes} {field : Field} (h : fieldOf line = some field) :
    Token field.1 ∧ FieldValue field.2 := by
  unfold fieldOf at h
  split at h
  · cases h
  · split at h
    · rename_i hok
      obtain rfl := Option.some.inj h
      refine ⟨hok.1, ⟨?_, trimOws_trimOws _⟩⟩
      intro b hb
      exact List.all_eq_true.mp hok.2 b (trimOws_subset _ hb)
    · cases h

theorem requestLineOf_sound {line method target : Bytes} (h : requestLineOf line = some (method, target)) :
    Token method ∧ Target target := by
  unfold requestLineOf at h
  split at h
  · split at h
    · rename_i hok
      obtain ⟨rfl, rfl⟩ := Prod.mk.inj (Option.some.inj h)
      exact ⟨hok.1, hok.2.1⟩
    · cases h
  · cases h

theorem fieldLines_sound {bytes content : Bytes} {fields : List Field} (h : FieldLines bytes fields content) :
    ∀ field ∈ fields, Token field.1 ∧ FieldValue field.2 := by
  induction h with
  | blank => simp
  | field bytes line rest content field fields _ hf _ ih =>
      rw [List.forall_mem_cons]
      exact ⟨fieldOf_sound hf, ih⟩

theorem tchar_plain {text : Bytes} (h : Token text) : (0x20 : UInt8) ∉ text ∧ COLON ∉ text ∧ CR ∉ text := by
  refine ⟨fun hm => ?_, fun hm => ?_, fun hm => ?_⟩ <;> exact absurd (h.2 _ hm) (by decide)

theorem target_plain {text : Bytes} (h : Target text) : (0x20 : UInt8) ∉ text ∧ CR ∉ text := by
  refine ⟨fun hm => ?_, fun hm => ?_⟩ <;> exact absurd (h.2 _ hm) (by decide)

theorem fieldValue_plain {text : Bytes} (h : FieldValue text) : CR ∉ text := by
  intro hm
  exact absurd (h.octets _ hm) (by decide)

theorem encodeLine_plain {field : Field} (hn : Token field.1) (hv : FieldValue field.2) :
    CR ∉ encodeLine field := by
  have hcolon : CR ≠ COLON := by decide
  have hblank : CR ≠ 0x20 := by decide
  simp only [encodeLine, List.mem_append, List.mem_cons, (tchar_plain hn).2.2, fieldValue_plain hv, hcolon,
    hblank, or_self, not_false_eq_true]

theorem fieldOf_encodeLine {field : Field} (hn : Token field.1) (hv : FieldValue field.2) :
    fieldOf (encodeLine field) = some field := by
  have hcolon : ∀ b ∈ field.1, decide (b ≠ COLON) = true := by
    intro b hb
    rw [decide_eq_true_eq]
    rintro rfl
    exact (tchar_plain hn).2.1 hb
  have htake : (encodeLine field).takeWhile (· ≠ COLON) = field.1 := by
    rw [encodeLine, List.takeWhile_append_of_pos hcolon]
    simp
  have hdrop : (encodeLine field).dropWhile (· ≠ COLON) = COLON :: 0x20 :: field.2 := by
    rw [encodeLine, List.dropWhile_append_of_pos hcolon]
    simp
  have hbytes : ∀ b ∈ (0x20 :: field.2 : Bytes), isFieldByte b = true := by
    rw [List.forall_mem_cons]
    exact ⟨by decide, hv.octets⟩
  have htrim : trimOws (0x20 :: field.2) = field.2 := by
    rw [trimOws, List.dropWhile_cons_of_pos (by decide)]
    exact hv.trimmed
  unfold fieldOf
  rw [hdrop, htake]
  dsimp only
  rw [if_pos ⟨hn, List.all_eq_true.mpr hbytes⟩, htrim]

theorem fieldLines_encode {fields : List Field} (h : ∀ field ∈ fields, Token field.1 ∧ FieldValue field.2)
    (content : Bytes) :
    FieldLines (fields.flatMap (fun field => encodeLine field ++ crlf) ++ crlf ++ content) fields content := by
  induction fields with
  | nil => exact .blank _ _ (splitLine_line List.not_mem_nil content)
  | cons field rest ih =>
      rw [List.forall_mem_cons] at h
      obtain ⟨⟨hn, hv⟩, hrest⟩ := h
      refine .field _ (encodeLine field) _ _ _ _ ?_ (fieldOf_encodeLine hn hv) (ih hrest)
      rw [← splitLine_line (encodeLine_plain hn hv), List.flatMap_cons]
      simp only [List.append_assoc]

theorem requestLineOf_encode {method target : Bytes} (hm : Token method) (ht : Target target) :
    requestLineOf (method ++ 0x20 :: (target ++ 0x20 :: ascii "HTTP/1.1")) = some (method, target) := by
  have hversion : (ascii "HTTP/1.1").splitOn 0x20 = [ascii "HTTP/1.1"] := by decide
  unfold requestLineOf
  rw [List.splitOn_append_cons_self_of_not_mem (tchar_plain hm).1,
    List.splitOn_append_cons_self_of_not_mem (target_plain ht).1, hversion]
  simp only [hm, ht, true_and, ↓reduceIte]

namespace WireRequest

theorem splitLine_encode {r : WireRequest} (hm : Token r.method) (ht : Target r.target) :
    splitLine r.encode = some (r.method ++ 0x20 :: (r.target ++ 0x20 :: ascii "HTTP/1.1"),
      r.fields.flatMap (fun field => encodeLine field ++ crlf) ++ crlf ++ r.body) := by
  have hversion : CR ∉ ascii "HTTP/1.1" := by decide
  have hblank : CR ≠ 0x20 := by decide
  have hline : CR ∉ r.method ++ 0x20 :: (r.target ++ 0x20 :: ascii "HTTP/1.1") := by
    simp only [List.mem_append, List.mem_cons, (tchar_plain hm).2.2, (target_plain ht).2, hversion, hblank,
      or_self, not_false_eq_true]
  rw [← splitLine_line hline, encode]
  simp only [List.append_assoc]

-- An encoded request is read back exactly when its parts keep to the grammar.
theorem parses_encode_iff (r : WireRequest) : Parses r.encode r ↔ r.Sendable := by
  constructor
  · intro h
    obtain ⟨line, rest, content, hs, hl, hf, hb⟩ := h.head
    obtain ⟨hm, ht⟩ := requestLineOf_sound hl
    have hfields := fieldLines_sound hf
    obtain ⟨_, rfl⟩ := Prod.mk.inj (Option.some.inj (hs.symm.trans (splitLine_encode hm ht)))
    obtain ⟨_, rfl⟩ := fieldLines_unique hf (fieldLines_encode hfields r.body)
    exact ⟨hm, ht, hfields, h.host, hb⟩
  · intro h
    exact ⟨⟨_, _, r.body, splitLine_encode h.method h.target, requestLineOf_encode h.method h.target,
      fieldLines_encode h.fields r.body, h.body⟩, h.host⟩

end WireRequest

end NeverFox.Http1
