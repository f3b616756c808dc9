import Mathlib.Data.List.Forall2
import NeverFox.H3.LogFormat

namespace NeverFox.H3

variable {printable : Char → Bool}

-- A response in the log: what the logger puts in front of the line, and the line's
-- own parts. Of the pseudo-headers a response has only its status.
structure LoggedResponse where
  before : List Char
  sid : Nat
  fin : Bool
  status : Nat
  statusOctets : Bool
  fields : List LoggedHeader
  plain : ∀ c ∈ before, c ≠ '"' ∧ isBreak c = false
  regular : ∀ h ∈ fields, isPseudo h.name = false
  short : status < 1000

namespace LoggedResponse

def statusHeader (r : LoggedResponse) : LoggedHeader where
  name := ":status".toList
  value :=
    if r.statusOctets then .octets (Utf8.encode (Nat.toDigits 10 r.status))
    else .text (Nat.toDigits 10 r.status)

def label (r : LoggedResponse) : List Char :=
  '[' :: Nat.toDigits 10 r.sid ++ ("]: fin=".toList ++
    ((if r.fin then "true" else "false").toList ++ " [Header \x7b ".toList))

def opening (r : LoggedResponse) : List Char := r.before ++ ("READ HEADERS".toList ++ r.label)

def line (printable : Char → Bool) (r : LoggedResponse) : List Char :=
  r.opening ++ (r.statusHeader.debug printable ++ moreHeaders printable r.fields)

theorem opening_no_quote (r : LoggedResponse) : '"' ∉ r.opening := by
  have hdigits : '"' ∉ Nat.toDigits 10 r.sid := fun hmem =>
    absurd (toDigits_range (by decide) (by decide) hmem) (by decide)
  have hbefore : '"' ∉ r.before := fun hmem => (r.plain _ hmem).1 rfl
  have hfin : '"' ∉ (if r.fin then "true" else "false").toList := by cases r.fin <;> decide
  unfold opening label
  simp only [List.mem_append, List.mem_cons, not_or]
  exact ⟨hbefore, by decide, ⟨by decide, hdigits⟩, by decide, hfin, by decide⟩

theorem readLine_eq (named : Bytes → Option Char) (r : LoggedResponse) :
    readLine named (r.line printable) =
      ((r.statusHeader :: r.fields).map (LoggedHeader.raw printable)).foldlM (readHeader named) {} := by
  have hlen : (r.line printable).length =
      r.opening.length + (r.statusHeader.debug printable ++ moreHeaders printable r.fields).length := by
    unfold line
    rw [List.length_append]
  obtain ⟨fuel', hfuel', heq⟩ := findAll_debug r.statusHeader (moreHeaders printable r.fields) (Nat.le_refl _)
  unfold readLine
  rw [hlen]
  unfold line
  rw [findAll_gap r.opening_no_quote (headerNext_debug _ _), heq, findAll_more r.fields hfuel', List.map_cons]

theorem word_in_line (r : LoggedResponse) : "READ HEADERS".toList <:+: r.line printable := by
  refine ⟨r.before, r.label ++ (r.statusHeader.debug printable ++ moreHeaders printable r.fields), ?_⟩
  unfold line opening
  rw [List.append_assoc, List.append_assoc, List.append_assoc]

end LoggedResponse

-- How a value comes out of the log.
def LoggedValue.ReadAs : LoggedValue → List Char → Prop
  | .text chars, val => Misread chars val
  | .octets bytes, val => val = Utf8.decodeReplace bytes

def LoggedValue.Uncoded (printable : Char → Bool) : LoggedValue → Prop
  | .text chars => ∀ c ∈ chars, coded printable c = false
  | .octets _ => True

-- Nothing in the header is printed as a code point.
def LoggedHeader.Uncoded (printable : Char → Bool) (h : LoggedHeader) : Prop :=
  (∀ c ∈ h.name, coded printable c = false) ∧ h.value.Uncoded printable

-- What a header with the name and the value adds to its line.
def entry (name val : List Char) : LineRead :=
  if name = ":status".toList then { status := PyText.intOfStr 10 val }
  else if isPseudo name then {}
  else { headers := [(String.ofList name, String.ofList val)] }

def LineRead.add (line more : LineRead) : LineRead :=
  ⟨more.status.or line.status, line.headers ++ more.headers⟩

theorem readHeader_eq (named : Bytes → Option Char) (line : LineRead) {found : List Char × RawValue}
    {name val : List Char} (hname : unescape named found.1 = .ok name)
    (hval : readValue named found.2 = .ok val) :
    readHeader named line found = .ok (line.add (entry (PyText.lowerText name) val)) := by
  unfold readHeader entry LineRead.add
  rw [hname]
  dsimp only [bind, Except.bind]
  rw [hval]
  dsimp only
  split
  · cases PyText.intOfStr 10 val <;> simp [pure, Except.pure]
  · split <;> simp [pure, Except.pure]

theorem readHeader_error (named : Bytes → Option Char) (line : LineRead)
    {found : List Char × RawValue} {exc : Exn}
    (h : unescape named found.1 = .error exc ∨
      (∃ name, unescape named found.1 = .ok name) ∧ readValue named found.2 = .error exc) :
    readHeader named line found = .error exc := by
  unfold readHeader
  rcases h with hname | ⟨⟨name, hname⟩, hval⟩
  · rw [hname]
    rfl
  · rw [hname]
    dsimp only [bind, Except.bind]
    rw [hval]

theorem readValue_uncoded (named : Bytes → Option Char) {value : LoggedValue} (h : value.Uncoded printable) :
    ∃ val, value.ReadAs val ∧ readValue named (value.raw printable) = .ok val := by
  cases value with
  | text chars =>
      obtain ⟨out, hmis, hout⟩ := unescape_debug named h
      exact ⟨out, hmis, hout⟩
  | octets bytes => exact ⟨_, rfl, by rw [LoggedValue.raw, readValue, octetList_debug]; rfl⟩

theorem readHeader_uncoded (named : Bytes → Option Char) {h : LoggedHeader} (hun : h.Uncoded printable) :
    ∃ name val, Misread h.name name ∧ h.value.ReadAs val ∧ ∀ line,
      readHeader named line (h.raw printable) = .ok (line.add (entry (PyText.lowerText name) val)) := by
  obtain ⟨name, hmis, hname⟩ := unescape_debug named hun.1
  obtain ⟨val, has, hval⟩ := readValue_uncoded named hun.2
  exact ⟨name, val, hmis, has, fun line => readHeader_eq named line hname hval⟩

theorem readHeader_coded (named : Bytes → Option Char) {h : LoggedHeader} (hco : ¬h.Uncoded printable)
    (line : LineRead) : readHeader named line (h.raw printable) = .error .valueError := by
  apply readHeader_error
  by_cases hname : ∀ c ∈ h.name, coded printable c = false
  · right
    obtain ⟨name, _, hread⟩ := unescape_debug named hname
    refine ⟨⟨name, hread⟩, ?_⟩
    have hvalue : ¬h.value.Uncoded printable := fun hv => hco ⟨hname, hv⟩
    unfold LoggedHeader.raw
    cases hv : h.value with
    | text chars =>
        rw [hv] at hvalue
        refine unescape_coded named ?_
        by_contra hno
        refine hvalue fun c hc => Bool.eq_false_iff.mpr fun hcoded => hno ⟨c, hc, hcoded⟩
    | octets bytes =>
        rw [hv] at hvalue
        exact absurd trivial hvalue
  · left
    refine unescape_coded named ?_
    by_contra hno
    exact hname fun c hc => Bool.eq_false_iff.mpr fun hcoded => hno ⟨c, hc, hcoded⟩

-- The line's own reading of one header.
def addOf (printable : Char → Bool) (named : Bytes → Option Char) (h : LoggedHeader) : LineRead :=
  match readHeader named {} (h.raw printable) with
  | .ok line => line
  | .error _ => {}

theorem readHeader_addOf (named : Bytes → Option Char) {h : LoggedHeader} (hun : h.Uncoded printable)
    (line : LineRead) :
    readHeader named line (h.raw printable) = .ok (line.add (addOf printable named h)) := by
  obtain ⟨name, val, _, _, hread⟩ := readHeader_uncoded named hun
  have hone : addOf printable named h = entry (PyText.lowerText name) val := by
    unfold addOf
    rw [hread]
    simp [LineRead.add]
  rw [hread, hone]

theorem readHeaders_ok (named : Bytes → Option Char) {headers : List LoggedHeader}
    (h : ∀ x ∈ headers, x.Uncoded printable) (line : LineRead) :
    (headers.map (LoggedHeader.raw printable)).foldlM (readHeader named) line =
      .ok ((headers.map (addOf printable named)).foldl LineRead.add line) := by
  induction headers generalizing line with
  | nil => rfl
  | cons x headers ih =>
      rw [List.forall_mem_cons] at h
      rw [List.map_cons, List.foldlM_cons, readHeader_addOf named h.1]
      exact ih h.2 _

theorem readHeaders_error (named : Bytes → Option Char) {headers : List LoggedHeader}
    (h : ¬∀ x ∈ headers, x.Uncoded printable) (line : LineRead) :
    (headers.map (LoggedHeader.raw printable)).foldlM (readHeader named) line = .error .valueError := by
  induction headers generalizing line with
  | nil => exact absurd (by simp) h
  | cons x headers ih =>
      rw [List.map_cons, List.foldlM_cons]
      by_cases hx : x.Uncoded printable
      · rw [readHeader_addOf named hx]
        exact ih (fun hall => h (List.forall_mem_cons.mpr ⟨hx, hall⟩)) _
      · rw [readHeader_coded named hx]
        rfl

theorem foldl_add_headers (reads : List LineRead) (line : LineRead) :
    (reads.foldl LineRead.add line).headers = line.headers ++ reads.flatMap LineRead.headers := by
  induction reads generalizing line with
  | nil => simp
  | cons read reads ih =>
      rw [List.foldl_cons, ih, List.flatMap_cons, ← List.append_assoc]
      rfl

theorem foldl_add_status {reads : List LineRead} (h : ∀ read ∈ reads, read.status = none) (line : LineRead) :
    (reads.foldl LineRead.add line).status = line.status := by
  induction reads generalizing line with
  | nil => rfl
  | cons read reads ih =>
      rw [List.forall_mem_cons] at h
      rw [List.foldl_cons, ih h.2, LineRead.add, h.1]
      rfl

theorem isPseudo_cons (c : Char) (rest : List Char) : isPseudo (c :: rest) = true ↔ c = ':' := by
  simp [isPseudo, eq_comm]

-- A name keeps its first character, unless that is a NUL.
theorem misread_regular {name out : List Char} (h : Misread name out) (hregular : isPseudo name = false)
    (hnul : '\x00' ∉ name) : isPseudo (PyText.lowerText out) = false := by
  have hcolon : ∀ d : Char, d.toNat < 0x100 → PyText.lowerChar d = ':' → d = ':' := by
    intro d hd heq
    have hall : ∀ n < 0x100, PyText.runCode PyText.lowerRuns n = 58 → n = 58 := by decide +kernel
    have hcode := congrArg Char.toNat heq
    rw [PyText.toNat_lowerChar] at hcode
    rw [← Char.ofNat_toNat d, hall d.toNat hd hcode]
  rw [PyText.lowerText_latin1 h.latin1]
  cases h with
  | nil => decide
  | @same c rest out hc _ h =>
      rw [List.map_cons, Bool.eq_false_iff, ne_eq, isPseudo_cons]
      intro heq
      have hsame := hcolon c (by omega) heq
      rw [Bool.eq_false_iff, ne_eq, isPseudo_cons] at hregular
      exact hregular hsame
  | @wide c rest out hc h =>
      cases hbytes : String.utf8EncodeChar c with
      | nil => exact absurd hbytes (Utf8.encodeChar_ne_nil c)
      | cons b bytes =>
          have hmem : b ∈ String.utf8EncodeChar c := by
            rw [hbytes]
            exact List.mem_cons_self
          have hwide := encodeChar_wide hc hmem
          have hlt := b.toNat_lt
          have hchar : (Char.ofNat b.toNat).toNat = b.toNat := toNat_ofNat (by omega)
          show isPseudo (PyText.lowerChar (Char.ofNat b.toNat) :: _) = false
          rw [Bool.eq_false_iff, ne_eq, isPseudo_cons]
          intro heq
          have hsame := hcolon _ (by omega) heq
          rw [hsame] at hchar
          have hcode : ':'.toNat = 58 := rfl
          omega
  | octal digits value hne hdigits hvalue h => exact absurd List.mem_cons_self hnul

theorem entry_status {name : List Char} (h : isPseudo name = false) (val : List Char) :
    (entry name val).status = none := by
  unfold entry
  rw [if_neg, h, if_neg Bool.false_ne_true]
  intro heq
  rw [heq] at h
  exact absurd h (by decide)

theorem addOf_status_none (named : Bytes → Option Char) {h : LoggedHeader} (hun : h.Uncoded printable)
    (hregular : isPseudo h.name = false) (hnul : '\x00' ∉ h.name) :
    (addOf printable named h).status = none := by
  obtain ⟨name, val, hmis, _, hread⟩ := readHeader_uncoded named hun
  have hname := misread_regular hmis hregular hnul
  unfold addOf
  rw [hread]
  exact congrArg (Option.or · none) (entry_status hname val)

theorem readsBack_digits (n : Nat) : readsBack (Nat.toDigits 10 n) = true ∧
    ∀ c ∈ Nat.toDigits 10 n, coded printable c = false := by
  have hrange : ∀ c ∈ Nat.toDigits 10 n, 48 ≤ c.toNat ∧ c.toNat ≤ 102 := by
    intro c hc
    have h := toDigits_range (by decide) (by decide) hc
    omega
  have hback : ∀ text : List Char, (∀ c ∈ text, 48 ≤ c.toNat ∧ c.toNat ≤ 102) → readsBack text = true := by
    intro text htext
    induction text with
    | nil => rfl
    | cons c text ih =>
        rw [List.forall_mem_cons] at htext
        have hnul : c ≠ '\x00' := ne_of_toNat (by
          show c.toNat ≠ 0
          omega)
        simp only [readsBack, hnul, ih htext.2, decide_false, Bool.false_and, Bool.not_false, Bool.and_true,
          decide_eq_true_eq]
        omega
  refine ⟨hback _ hrange, fun c hc => ?_⟩
  have h := hrange c hc
  have hcode : byCode printable c = false := by
    simp only [byCode, Bool.or_eq_false_iff, Bool.and_eq_false_iff, decide_eq_false_iff_not]
    omega
  rw [coded, hcode, Bool.false_and]

theorem statusHeader_read (named : Bytes → Option Char) (r : LoggedResponse) (line : LineRead) :
    readHeader named line (r.statusHeader.raw printable) =
      .ok { line with status := some (r.status : Int) } := by
  have hfits : 10 ^ 3 ≤ 10 ^ PyText.maxStrDigits := Nat.pow_le_pow_right (by decide) (by decide)
  have hint := (@intOfStr_toDigits r.status (Nat.lt_of_lt_of_le r.short hfits)).1
  obtain ⟨hback, huncoded⟩ := @readsBack_digits printable r.status
  have hname : unescape named (debugText printable ":status".toList) = .ok ":status".toList := by
    have hplain : ∀ c ∈ ":status".toList, coded printable c = false := by
      intro c hc
      have hrange : (":status".toList.all fun c => 0x20 ≤ c.toNat && c.toNat < 0x7f) = true := by decide
      have h := List.all_eq_true.mp hrange c hc
      rw [Bool.and_eq_true, decide_eq_true_eq, decide_eq_true_eq] at h
      have hcode : byCode printable c = false := by
        simp only [byCode, Bool.or_eq_false_iff, Bool.and_eq_false_iff, decide_eq_false_iff_not]
        omega
      rw [coded, hcode, Bool.false_and]
    obtain ⟨out, hmis, hout⟩ := unescape_debug named hplain
    rw [hout, hmis.eq_of_readsBack (by decide)]
  have hval : readValue named (r.statusHeader.value.raw printable) = .ok (Nat.toDigits 10 r.status) := by
    unfold LoggedResponse.statusHeader
    cases r.statusOctets with
    | true =>
        show readValue named (.list (debugOctets _)) = _
        rw [readValue, octetList_debug, Option.elim_some, Utf8.decodeReplace_encode]
    | false =>
        obtain ⟨out, hmis, hout⟩ := unescape_debug named huncoded
        show unescape named (debugText printable (Nat.toDigits 10 r.status)) = _
        rw [hout, hmis.eq_of_readsBack hback]
  have hlower : PyText.lowerText ":status".toList = ":status".toList := by decide
  rw [readHeader_eq named line hname hval, hlower, entry, if_pos rfl, hint]
  simp [LineRead.add]

-- What a line's own reading of its headers comes to.
def lineRead (printable : Char → Bool) (named : Bytes → Option Char) (r : LoggedResponse) : LineRead :=
  (r.fields.map (addOf printable named)).foldl LineRead.add { status := some (r.status : Int) }

theorem lineRead_headers (named : Bytes → Option Char) (r : LoggedResponse) :
    (lineRead printable named r).headers =
      (r.fields.map (addOf printable named)).flatMap LineRead.headers := by
  unfold lineRead
  rw [foldl_add_headers, List.nil_append]

theorem lineRead_status (named : Bytes → Option Char) {r : LoggedResponse}
    (h : ∀ x ∈ r.fields, (addOf printable named x).status = none) :
    (lineRead printable named r).status = some (r.status : Int) := by
  unfold lineRead
  rw [foldl_add_status]
  intro read hread
  obtain ⟨x, hx, rfl⟩ := List.mem_map.mp hread
  exact h x hx

theorem nextLine_uncoded (named : Bytes → Option Char) (r : LoggedResponse)
    (h : ∀ x ∈ r.fields, x.Uncoded printable) (found : Option Int × List Header) :
    nextLine named found (r.line printable) = .ok ((lineRead printable named r).settle found) := by
  unfold nextLine lineRead
  rw [if_pos r.word_in_line, r.readLine_eq, List.map_cons, List.foldlM_cons, statusHeader_read]
  show ((r.fields.map (LoggedHeader.raw printable)).foldlM (readHeader named) _).map _ = _
  rw [readHeaders_ok named h]
  rfl

theorem nextLine_coded (named : Bytes → Option Char) (r : LoggedResponse)
    (h : ¬∀ x ∈ r.fields, x.Uncoded printable) (found : Option Int × List Header) :
    nextLine named found (r.line printable) = .error .valueError := by
  unfold nextLine
  rw [if_pos r.word_in_line, r.readLine_eq, List.map_cons, List.foldlM_cons, statusHeader_read]
  show ((r.fields.map (LoggedHeader.raw printable)).foldlM (readHeader named) _).map _ = _
  rw [readHeaders_error named h]
  rfl

-- A line that has nothing to do with a response.
structure UnrelatedLine where
  text : List Char
  oneLine : ∀ c ∈ text, isBreak c = false
  unrelated : ¬"READ HEADERS".toList <:+: text

-- A line in front of the final response. The names of an interim response have no
-- NUL in them, behind which a name could be read as `:status`.
inductive LogLine
  | unrelated (line : UnrelatedLine)
  | interim (r : LoggedResponse) (hstatus : 100 ≤ r.status ∧ r.status < 200)
      (hnames : ∀ h ∈ r.fields, '\x00' ∉ h.name)

def LogLine.text (printable : Char → Bool) : LogLine → List Char
  | .unrelated line => line.text
  | .interim r _ _ => r.line printable

-- What neqo-client has logged of one request.
structure Log where
  before : List LogLine
  final : LoggedResponse
  after : List UnrelatedLine
  notInterim : ¬(100 ≤ final.status ∧ final.status < 200)

namespace Log

def lines (printable : Char → Bool) (log : Log) : List (List Char) :=
  log.before.map (LogLine.text printable) ++ (log.final.line printable :: log.after.map UnrelatedLine.text)

def text (printable : Char → Bool) (log : Log) : List Char := (log.lines printable).flatMap (· ++ ['\n'])

end Log

theorem splitlines_line {line : List Char} (h : ∀ c ∈ line, isBreak c = false) (rest : List Char) :
    splitlines (line ++ '\n' :: rest) = line :: splitlines rest := by
  induction line with
  | nil => rfl
  | cons c line ih =>
      rw [List.forall_mem_cons] at h
      have hcr : c ≠ '\r' := by
        rintro rfl
        exact absurd h.1 (by decide)
      rw [List.cons_append, splitlines, if_neg (by rw [h.1]; exact Bool.false_ne_true), ih h.2]
      exact fun _ heq => absurd heq hcr

theorem splitlines_lines {lines : List (List Char)} (h : ∀ line ∈ lines, ∀ c ∈ line, isBreak c = false) :
    splitlines (lines.flatMap (· ++ ['\n'])) = lines := by
  induction lines with
  | nil => rfl
  | cons line lines ih =>
      rw [List.forall_mem_cons] at h
      rw [List.flatMap_cons, List.append_assoc, List.cons_append, List.nil_append,
        splitlines_line h.1, ih h.2]

-- Nothing in a line of the log breaks it.
theorem isBreak_of_plain {c : Char} (h : 0x20 ≤ c.toNat ∧ c.toNat < 0x7f) : isBreak c = false := by
  simp only [isBreak, Bool.or_eq_false_iff, Bool.and_eq_false_iff, decide_eq_false_iff_not]
  omega

theorem oneLine_of_all {text : List Char} (h : (text.all fun d => !isBreak d) = true) :
    ∀ d ∈ text, isBreak d = false := by
  intro d hd
  have hnot := List.all_eq_true.mp h d hd
  rwa [Bool.not_eq_true'] at hnot

theorem debugChar_one_line (c : Char) : ∀ d ∈ debugChar printable c, isBreak d = false := by
  have hdigits : ∀ d ∈ Nat.toDigits 16 c.toNat, isBreak d = false := by
    intro d hd
    have hrange := toDigits_range (by decide) (Nat.le_refl 16) hd
    exact isBreak_of_plain (by omega)
  by_cases hcoded : coded printable c = true
  · rw [debugChar_coded hcoded]
    intro d hd
    rcases List.mem_append.mp hd with hd | hd
    · simp only [List.mem_cons] at hd
      rcases hd with rfl | rfl | rfl | hd
      · decide
      · decide
      · decide
      · exact hdigits d hd
    · obtain rfl := List.mem_singleton.mp hd
      decide
  · rcases debugChar_cases (Bool.eq_false_iff.mpr hcoded) with
      ⟨_, he⟩ | ⟨e, hrange, he, _⟩ | ⟨he, _, _, _, hcode⟩ <;> rw [he]
    · rw [List.forall_mem_cons, List.forall_mem_singleton]
      exact ⟨by decide, by decide⟩
    · rw [List.forall_mem_cons, List.forall_mem_singleton]
      exact ⟨by decide, isBreak_of_plain hrange⟩
    · rw [List.forall_mem_singleton]
      simp only [byCode, Bool.or_eq_false_iff, Bool.and_eq_false_iff, decide_eq_false_iff_not] at hcode
      simp only [isBreak, Bool.or_eq_false_iff, Bool.and_eq_false_iff, decide_eq_false_iff_not]
      omega

theorem debugText_one_line (text : List Char) : ∀ d ∈ debugText printable text, isBreak d = false := by
  intro d hd
  obtain ⟨c, _, hc⟩ := List.mem_flatMap.mp hd
  exact debugChar_one_line c d hc

theorem toDigits_one_line {n : Nat} : ∀ d ∈ Nat.toDigits 10 n, isBreak d = false := by
  intro d hd
  have hrange := toDigits_range (by decide) (by decide) hd
  exact isBreak_of_plain (by omega)

theorem debugOctets_one_line (bytes : Bytes) : ∀ d ∈ debugOctets bytes, isBreak d = false := by
  have hmore : ∀ bytes : Bytes, ∀ d ∈ moreOctets bytes, isBreak d = false := by
    intro bytes
    induction bytes with
    | nil => simp [moreOctets]
    | cons b bytes ih =>
        unfold moreOctets
        simp only [List.cons_append, List.forall_mem_cons, List.forall_mem_append]
        exact ⟨by decide, by decide, toDigits_one_line, ih⟩
  cases bytes with
  | nil => simp [debugOctets]
  | cons b bytes =>
      unfold debugOctets
      rw [List.forall_mem_append]
      exact ⟨toDigits_one_line, hmore bytes⟩

theorem LoggedHeader.debug_one_line (h : LoggedHeader) : ∀ d ∈ h.debug printable, isBreak d = false := by
  have hvalue : ∀ d ∈ h.value.debug printable, isBreak d = false := by
    cases h.value with
    | text chars =>
        show ∀ d ∈ '"' :: (debugText printable chars ++ ['"']), isBreak d = false
        rw [List.forall_mem_cons, List.forall_mem_append]
        exact ⟨by decide, debugText_one_line chars, oneLine_of_all (by decide)⟩
    | octets bytes =>
        show ∀ d ∈ '[' :: (debugOctets bytes ++ [']']), isBreak d = false
        rw [List.forall_mem_cons, List.forall_mem_append]
        exact ⟨by decide, debugOctets_one_line bytes, oneLine_of_all (by decide)⟩
  unfold LoggedHeader.debug
  simp only [List.forall_mem_append, List.forall_mem_cons]
  exact ⟨⟨⟨oneLine_of_all (by decide), by decide, debugText_one_line h.name⟩, by decide,
    oneLine_of_all (by decide)⟩, hvalue⟩

theorem LoggedResponse.line_one_line (r : LoggedResponse) : ∀ d ∈ r.line printable, isBreak d = false := by
  have hmore : ∀ headers, ∀ d ∈ moreHeaders printable headers, isBreak d = false := by
    intro headers
    induction headers with
    | nil =>
        show ∀ d ∈ " \x7d]".toList, isBreak d = false
        exact oneLine_of_all (by decide)
    | cons h headers ih =>
        unfold moreHeaders
        rw [List.forall_mem_append, List.forall_mem_append]
        exact ⟨oneLine_of_all (by decide), h.debug_one_line, ih⟩
  have hfin : ∀ d ∈ (if r.fin then "true" else "false").toList, isBreak d = false := by
    cases r.fin <;> exact oneLine_of_all (by decide)
  unfold LoggedResponse.line LoggedResponse.opening LoggedResponse.label
  simp only [List.forall_mem_append, List.forall_mem_cons]
  exact ⟨⟨fun d hd => (r.plain d hd).2, oneLine_of_all (by decide), ⟨by decide, toDigits_one_line⟩,
    oneLine_of_all (by decide), hfin, oneLine_of_all (by decide)⟩,
      r.statusHeader.debug_one_line, hmore r.fields⟩

theorem Log.splitlines_text (log : Log) : splitlines (log.text printable) = log.lines printable := by
  apply splitlines_lines
  unfold Log.lines
  rw [List.forall_mem_append, List.forall_mem_cons]
  refine ⟨?_, log.final.line_one_line, ?_⟩
  · intro line hline
    obtain ⟨l, _, rfl⟩ := List.mem_map.mp hline
    cases l with
    | unrelated line => exact line.oneLine
    | interim r _ _ => exact r.line_one_line
  · intro line hline
    obtain ⟨l, _, rfl⟩ := List.mem_map.mp hline
    exact l.oneLine

theorem after_ok (named : Bytes → Option Char) (lines : List UnrelatedLine)
    (found : Option Int × List Header) :
    (lines.map UnrelatedLine.text).foldlM (nextLine named) found = .ok found := by
  induction lines with
  | nil => rfl
  | cons line lines ih =>
      have hline : nextLine named found line.text = .ok found := if_neg line.unrelated
      rw [List.map_cons, List.foldlM_cons, hline]
      exact ih

-- The headers that are read whole, in the lines in front of the final response.
def LogLine.Uncoded (printable : Char → Bool) : LogLine → Prop
  | .unrelated _ => True
  | .interim r _ _ => ∀ h ∈ r.fields, h.Uncoded printable

theorem before_line (named : Bytes → Option Char) {line : LogLine} (h : line.Uncoded printable)
    (headers : List Header) : nextLine named (none, headers) (line.text printable) = .ok (none, headers) := by
  cases line with
  | unrelated line => exact if_neg line.unrelated
  | interim r hstatus hnames =>
      have hlow : ¬200 ≤ (r.status : Int) := by omega
      show nextLine named _ (r.line printable) = _
      rw [nextLine_uncoded named r h, LineRead.settle, lineRead_status named fun x hx =>
        addOf_status_none named (h x hx) (r.regular x hx) (hnames x hx)]
      dsimp only
      rw [if_neg hlow]

theorem before_ok (named : Bytes → Option Char) {lines : List LogLine}
    (h : ∀ line ∈ lines, line.Uncoded printable) :
    (lines.map (LogLine.text printable)).foldlM (nextLine named) (none, []) = .ok (none, []) := by
  induction lines with
  | nil => rfl
  | cons line lines ih =>
      rw [List.forall_mem_cons] at h
      rw [List.map_cons, List.foldlM_cons, before_line named h.1]
      exact ih h.2

theorem before_error (named : Bytes → Option Char) {lines : List LogLine}
    (h : ¬∀ line ∈ lines, line.Uncoded printable) :
    (lines.map (LogLine.text printable)).foldlM (nextLine named) (none, []) = .error .valueError := by
  induction lines with
  | nil => exact absurd (by simp) h
  | cons line lines ih =>
      rw [List.map_cons, List.foldlM_cons]
      by_cases hline : line.Uncoded printable
      · rw [before_line named hline]
        exact ih fun hall => h (List.forall_mem_cons.mpr ⟨hline, hall⟩)
      · cases line with
        | unrelated line => exact absurd trivial hline
        | interim r hstatus hnames =>
            show (nextLine named _ (r.line printable)).bind _ = _
            rw [nextLine_coded named r hline]
            rfl

theorem parse_lines (named : Bytes → Option Char) (log : Log) :
    parseResponse named (Utf8.encode (log.text printable)) =
      ((log.before.map (LogLine.text printable)).foldlM (nextLine named) (none, [])).bind fun found =>
        nextLine named found (log.final.line printable) := by
  unfold parseResponse
  rw [Utf8.decodeReplace_encode, log.splitlines_text, Log.lines, List.foldlM_append]
  show Except.bind _ _ = _
  congr 1
  funext found
  rw [List.foldlM_cons]
  show Except.bind _ _ = _
  cases nextLine named found (log.final.line printable) with
  | error exc => rfl
  | ok found => exact after_ok named log.after found

-- What `_parse_response` makes of the log: an error if something is printed as a code point.
theorem parse_eq (named : Bytes → Option Char) (log : Log) :
    ((∀ line ∈ log.before, line.Uncoded printable) ∧ (∀ h ∈ log.final.fields, h.Uncoded printable) →
      parseResponse named (Utf8.encode (log.text printable)) =
        .ok ((lineRead printable named log.final).settle (none, []))) ∧
    (¬((∀ line ∈ log.before, line.Uncoded printable) ∧ ∀ h ∈ log.final.fields, h.Uncoded printable) →
      parseResponse named (Utf8.encode (log.text printable)) = .error .valueError) := by
  rw [parse_lines]
  refine ⟨fun h => ?_, fun h => ?_⟩
  · rw [before_ok named h.1]
    exact nextLine_uncoded named log.final h.2 _
  · by_cases hbefore : ∀ line ∈ log.before, line.Uncoded printable
    · rw [before_ok named hbefore]
      exact nextLine_coded named log.final (fun hfinal => h ⟨hbefore, hfinal⟩) _
    · rw [before_error named hbefore]
      rfl

-- A value as it was sent: its text, or a text for its octets.
def LoggedValue.Is : LoggedValue → String → Prop
  | .text chars, val => val.toList = chars
  | .octets bytes, val => Utf8.encode val.toList = bytes

def LoggedHeader.Is (h : LoggedHeader) (field : Header) : Prop := field.1.toList = h.name ∧ h.value.Is field.2

-- The status and the fields of the final response, in order.
def Log.Recovered (log : Log) (result : Except Exn (Option Int × List Header)) : Prop :=
  ∃ headers, result = .ok (some (log.final.status : Int), headers) ∧
    List.Forall₂ LoggedHeader.Is log.final.fields headers

def LoggedValue.ReadsBack : LoggedValue → Prop
  | .text chars => readsBack chars = true
  | .octets bytes => (Utf8.decode? bytes).isSome = true

-- Names and texts are ASCII, without a NUL in front of an octal digit, names in
-- lower case, and octets are UTF-8.
structure LoggedHeader.ReadsBack (h : LoggedHeader) : Prop where
  name : readsBack h.name = true
  lower : PyText.lowerText h.name = h.name
  value : h.value.ReadsBack

structure Log.Legible (printable : Char → Bool) (log : Log) : Prop where
  status : 200 ≤ log.final.status
  before : ∀ line ∈ log.before, line.Uncoded printable
  uncoded : ∀ h ∈ log.final.fields, h.Uncoded printable
  fields : ∀ h ∈ log.final.fields, h.ReadsBack

theorem readAs_is_iff {value : LoggedValue} {val : List Char} (h : value.ReadAs val) :
    value.Is (String.ofList val) ↔ value.ReadsBack := by
  cases value with
  | text chars =>
      show (String.ofList val).toList = chars ↔ _
      rw [String.toList_ofList]
      exact Misread.readsBack_iff h
  | octets bytes =>
      obtain rfl : val = Utf8.decodeReplace bytes := h
      show Utf8.encode (String.ofList _).toList = bytes ↔ _
      rw [String.toList_ofList]
      exact Utf8.encode_decodeReplace

-- A header is handed on as it was sent just if it reads back.
theorem addOf_is_iff (named : Bytes → Option Char) {h : LoggedHeader} (hun : h.Uncoded printable)
    (hregular : isPseudo h.name = false) :
    (∃ field, (addOf printable named h).headers = [field] ∧ h.Is field) ↔ h.ReadsBack := by
  obtain ⟨name, val, hmis, has, hread⟩ := readHeader_uncoded named hun
  have hone : (addOf printable named h).headers = (entry (PyText.lowerText name) val).headers := by
    unfold addOf
    rw [hread]
    exact List.nil_append _
  rw [hone]
  constructor
  · rintro ⟨field, hfield, hname, hvalue⟩
    unfold entry at hfield
    split at hfield
    · cases hfield
    · split at hfield
      · cases hfield
      · obtain rfl := List.singleton_inj.mp hfield
        rw [String.toList_ofList] at hname
        have hback := hmis.readsBack_of_lower hname
        have hsame := hmis.eq_of_readsBack hback
        rw [hsame] at hname
        exact ⟨hback, hname, (readAs_is_iff has).mp hvalue⟩
  · intro hr
    have hsame := hmis.eq_of_readsBack hr.name
    rw [hsame, hr.lower]
    refine ⟨(String.ofList h.name, String.ofList val), ?_, ?_, (readAs_is_iff has).mpr hr.value⟩
    · unfold entry
      rw [if_neg, hregular, if_neg Bool.false_ne_true]
      intro heq
      rw [heq] at hregular
      exact absurd hregular (by decide)
    · exact String.toList_ofList

theorem addOf_status_readsBack (named : Bytes → Option Char) {h : LoggedHeader} (hun : h.Uncoded printable)
    (hregular : isPseudo h.name = false) (hr : h.ReadsBack) : (addOf printable named h).status = none := by
  obtain ⟨name, val, hmis, _, hread⟩ := readHeader_uncoded named hun
  have hsame := hmis.eq_of_readsBack hr.name
  have hname : isPseudo (PyText.lowerText name) = false := by rw [hsame, hr.lower, hregular]
  unfold addOf
  rw [hread]
  exact congrArg (Option.or · none) (entry_status hname val)

-- A list that a function of its members covers one by one.
theorem forall₂_flatMap {α β : Type} {R : α → β → Prop} {f : α → List β} {l : List α}
    (h : ∀ x ∈ l, (f x).length ≤ 1) : List.Forall₂ R l (l.flatMap f) ↔ ∀ x ∈ l, ∃ y, f x = [y] ∧ R x y := by
  have hshort : ∀ l : List α, (∀ x ∈ l, (f x).length ≤ 1) → (l.flatMap f).length ≤ l.length := by
    intro l
    induction l with
    | nil => simp
    | cons x l ih =>
        intro hl
        rw [List.forall_mem_cons] at hl
        have hrest := ih hl.2
        rw [List.flatMap_cons, List.length_append, List.length_cons]
        omega
  induction l with
  | nil => simp
  | cons x l ih =>
      rw [List.forall_mem_cons] at h ⊢
      rw [List.flatMap_cons]
      refine Iff.trans ?_ (and_congr_right fun _ => ih h.2)
      cases hx : f x with
      | nil =>
          constructor
          · intro hall
            have hlen := hall.length_eq
            have hle := hshort l h.2
            rw [List.nil_append, List.length_cons] at hlen
            omega
          · rintro ⟨⟨y, hy, _⟩, _⟩
            cases hy
      | cons y ys =>
          have hlen := h.1
          rw [hx, List.length_cons] at hlen
          obtain rfl : ys = [] := List.eq_nil_of_length_eq_zero (by omega)
          rw [List.cons_append, List.nil_append, List.forall₂_cons]
          constructor
          · rintro ⟨hy, hrest⟩
            exact ⟨⟨y, rfl, hy⟩, hrest⟩
          · rintro ⟨⟨y', hy', hR⟩, hrest⟩
            obtain rfl := List.singleton_inj.mp hy'
            exact ⟨hR, hrest⟩

theorem addOf_short (named : Bytes → Option Char) (h : LoggedHeader) (hun : h.Uncoded printable) :
    (addOf printable named h).headers.length ≤ 1 := by
  obtain ⟨name, val, _, _, hread⟩ := readHeader_uncoded named hun
  unfold addOf
  rw [hread]
  show ([] ++ (entry _ val).headers).length ≤ 1
  unfold entry
  split
  · simp
  · split <;> simp

-- The parser recovers the response exactly from a log in which nothing was
-- printed as a code point and every field reads back.
theorem headers_recovered_iff (printable : Char → Bool) (named : Bytes → Option Char) (log : Log) :
    log.Recovered (parseResponse named (Utf8.encode (log.text printable))) ↔ log.Legible printable := by
  by_cases hun : (∀ line ∈ log.before, line.Uncoded printable) ∧ ∀ h ∈ log.final.fields, h.Uncoded printable
  · have hfields : List.Forall₂ LoggedHeader.Is log.final.fields
        (lineRead printable named log.final).headers ↔
        ∀ h ∈ log.final.fields, h.ReadsBack := by
      rw [lineRead_headers, List.flatMap_map, forall₂_flatMap fun h hh => addOf_short named h (hun.2 h hh)]
      refine forall₂_congr fun h hh => ?_
      exact addOf_is_iff named (hun.2 h hh) (log.final.regular h hh)
    rw [(parse_eq named log).1 hun]
    constructor
    · rintro ⟨headers, hresult, hall⟩
      have hsettle := Except.ok.inj hresult
      unfold LineRead.settle at hsettle
      cases hstatus : (lineRead printable named log.final).status with
      | none =>
          rw [hstatus] at hsettle
          cases hsettle
      | some n =>
          rw [hstatus] at hsettle
          dsimp only at hsettle
          by_cases hn : 200 ≤ n
          · rw [if_pos hn] at hsettle
            obtain ⟨hsame, rfl⟩ := Prod.mk.inj hsettle
            obtain rfl := Option.some.inj hsame
            exact ⟨by omega, hun.1, hun.2, hfields.mp hall⟩
          · rw [if_neg hn] at hsettle
            cases hsettle
    · intro hl
      have hstatus : (lineRead printable named log.final).status = some (log.final.status : Int) := by
        apply lineRead_status
        intro h hh
        exact addOf_status_readsBack named (hl.uncoded h hh) (log.final.regular h hh) (hl.fields h hh)
      have hhigh : 200 ≤ (log.final.status : Int) := by
        have h := hl.status
        omega
      refine ⟨(lineRead printable named log.final).headers, ?_, hfields.mpr hl.fields⟩
      rw [LineRead.settle, hstatus]
      dsimp only
      rw [if_pos hhigh]
  · rw [(parse_eq named log).2 hun]
    constructor
    · rintro ⟨headers, hresult, _⟩
      cases hresult
    · intro hl
      exact absurd ⟨hl.before, hl.uncoded⟩ hun

-- The log of a final response without fields.
def bareLog : Log where
  before := []
  final := { before := [], sid := 0, fin := false, status := 200, statusOctets := false, fields := [],
             plain := fun _ h => absurd h List.not_mem_nil,
             regular := fun _ h => absurd h List.not_mem_nil,
             short := by decide }
  after := []
  notInterim := by decide

theorem bareLog_parse (named : Bytes → Option Char) :
    parseResponse named (Utf8.encode (bareLog.text fun _ => true)) = .ok (some 200, []) := by
  rw [(parse_eq named bareLog).1 ⟨fun _ h => absurd h List.not_mem_nil, fun _ h => absurd h List.not_mem_nil⟩]
  rfl

-- A final response whose only field has a character beyond ASCII in its value.
def accentedLog : Log where
  before := []
  final := { before := [], sid := 0, fin := false, status := 200, statusOctets := false,
             fields := [⟨"x".toList, .text ['é']⟩],
             plain := fun _ h => absurd h List.not_mem_nil,
             regular := List.forall_mem_singleton.mpr (by decide),
             short := by decide }
  after := []
  notInterim := by decide

-- The log shows é as it is, and the parser makes Ã© of it.
theorem accented_value_altered :
    ¬accentedLog.Recovered
      (parseResponse (fun _ => none) (Utf8.encode (accentedLog.text fun _ => true))) := by
  have hfinal : ∀ h ∈ accentedLog.final.fields, h.Uncoded fun _ => true := by
    unfold accentedLog
    rw [List.forall_mem_singleton]
    exact ⟨List.forall_mem_singleton.mpr (by decide), List.forall_mem_singleton.mpr (by decide)⟩
  have hread : lineRead (fun _ => true) (fun _ => none) accentedLog.final =
      ⟨some 200, [("x", "Ã©")]⟩ := by decide
  rw [(parse_eq (fun _ => none) accentedLog).1 ⟨fun _ h => absurd h List.not_mem_nil, hfinal⟩, hread]
  rintro ⟨headers, hresult, hall⟩
  obtain ⟨_, rfl⟩ := Prod.mk.inj (Except.ok.inj hresult)
  obtain ⟨⟨_, hvalue⟩, _⟩ := List.forall₂_cons.mp hall
  have hdiff : "Ã©".toList ≠ ['é'] := by decide
  exact hdiff hvalue

end NeverFox.H3
