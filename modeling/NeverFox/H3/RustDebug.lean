import NeverFox.H3.Log

namespace NeverFox.H3

-- What Rust's Debug writes as the number of its code point, if it has no escape of
-- its own: control characters, line separators and what it does not take for printable.
def byCode (printable : Char → Bool) (c : Char) : Bool :=
  c.toNat < 0x20 || (0x7f ≤ c.toNat && c.toNat < 0xa0) || c.toNat = 0x2028 || c.toNat = 0x2029 ||
    (0xa0 ≤ c.toNat && !printable c)

def hasEscape (c : Char) : Bool := c = '\x00' || c = '\t' || c = '\r' || c = '\n'

def debugChar (printable : Char → Bool) (c : Char) : List Char :=
  if c = '\x00' then ['\\', '0']
  else if c = '\t' then ['\\', 't']
  else if c = '\r' then ['\\', 'r']
  else if c = '\n' then ['\\', 'n']
  else if c = '"' ∨ c = '\\' then ['\\', c]
  else if byCode printable c then '\\' :: 'u' :: '\x7b' :: Nat.toDigits 16 c.toNat ++ ['\x7d']
  else [c]

-- A character that the log has as the number of its code point.
def coded (printable : Char → Bool) (c : Char) : Bool := byCode printable c && !hasEscape c

def debugText (printable : Char → Bool) (text : List Char) : List Char :=
  text.flatMap (debugChar printable)

def isOctal (c : Char) : Bool := '0' ≤ c && c ≤ '7'

def octalHead (text : List Char) : Bool := (text.head?.map isOctal).getD false

-- How unicode_escape reads a text that was printed so: it takes octets beyond ASCII
-- for characters, and a NUL and digits for one octal escape.
inductive Misread : List Char → List Char → Prop
  | nil : Misread [] []
  | same (c : Char) {rest out : List Char} (hc : c.toNat < 0x80)
      (hnul : c = '\x00' → octalHead rest = false) (h : Misread rest out) : Misread (c :: rest) (c :: out)
  | wide (c : Char) {rest out : List Char} (hc : 0x80 ≤ c.toNat) (h : Misread rest out) :
      Misread (c :: rest) (PyText.latin1 (String.utf8EncodeChar c) ++ out)
  | octal (digits : List Char) (value : Nat) {rest out : List Char} (hne : digits ≠ [])
      (hdigits : ∀ c ∈ digits, isOctal c = true) (hvalue : value < 64) (h : Misread rest out) :
      Misread ('\x00' :: digits ++ rest) (Char.ofNat value :: out)

-- ASCII, and no NUL in front of an octal digit.
def readsBack : List Char → Bool
  | [] => true
  | c :: rest => c.toNat < 0x80 && !(c = '\x00' && octalHead rest) && readsBack rest

theorem toNat_ofNat {n : Nat} (hn : n < 0xd800) : (Char.ofNat n).toNat = n := by
  rw [Char.ofNat, dif_pos (.inl hn)]
  rfl

theorem octal_toNat {c : Char} (h : isOctal c = true) : 48 ≤ c.toNat ∧ c.toNat ≤ 55 := by
  unfold isOctal at h
  rw [Bool.and_eq_true, decide_eq_true_eq, decide_eq_true_eq] at h
  exact h

theorem isOctal_iff (c : Char) : isOctal c = true ↔ 48 ≤ c.toNat ∧ c.toNat ≤ 55 := by
  refine ⟨octal_toNat, fun h => ?_⟩
  unfold isOctal
  rw [Bool.and_eq_true, decide_eq_true_eq, decide_eq_true_eq]
  exact h

-- The octets of a character are those of ASCII, or none of them is.
theorem encodeChar_ascii {c : Char} (hc : c.toNat < 0x80) :
    String.utf8EncodeChar c = [UInt8.ofNat c.toNat] := by
  have hle : c.val.toNat ≤ 0x7f := Nat.le_of_lt_succ hc
  unfold String.utf8EncodeChar
  exact if_pos hle

theorem encodeChar_wide {c : Char} (hc : 0x80 ≤ c.toNat) {b : UInt8} (hb : b ∈ String.utf8EncodeChar c) :
    0x80 ≤ b.toNat := by
  have hgt : ¬c.val.toNat ≤ 0x7f := Nat.not_le.mpr hc
  unfold String.utf8EncodeChar at hb
  simp only [hgt, ↓reduceIte] at hb
  split at hb
  · simp only [List.mem_cons, List.not_mem_nil, or_false] at hb
    rcases hb with rfl | rfl <;> simp only [UInt8.toNat_ofNat'] <;> omega
  · split at hb
    · simp only [List.mem_cons, List.not_mem_nil, or_false] at hb
      rcases hb with rfl | rfl | rfl <;> simp only [UInt8.toNat_ofNat'] <;> omega
    · simp only [List.mem_cons, List.not_mem_nil, or_false] at hb
      rcases hb with rfl | rfl | rfl | rfl <;> simp only [UInt8.toNat_ofNat'] <;> omega

-- Octets that are no backslash are read one by one.
theorem unicodeEscape_cons (named : Bytes → Option Char) {b : UInt8} (hb : b ≠ 92) (rest : Bytes)
    (fuel : Nat) :
    unicodeEscape named (fuel + 1) (b :: rest) =
      (unicodeEscape named fuel rest).map (Char.ofNat b.toNat :: ·) := by
  cases rest with
  | nil => rw [unicodeEscape, if_pos hb]
  | cons e rest => rw [unicodeEscape, if_pos hb]

theorem unicodeEscape_plain (named : Bytes → Option Char) {octets : Bytes} (h : (92 : UInt8) ∉ octets)
    (rest : Bytes) (fuel : Nat) : unicodeEscape named (octets.length + fuel) (octets ++ rest) =
      (unicodeEscape named fuel rest).map (PyText.latin1 octets ++ ·) := by
  induction octets with
  | nil => simp [PyText.latin1]
  | cons b octets ih =>
      rw [List.mem_cons, not_or] at h
      have hlen : (b :: octets).length + fuel = (octets.length + fuel) + 1 := by
        rw [List.length_cons]
        omega
      rw [hlen, List.cons_append, unicodeEscape_cons named (Ne.symm h.1), ih h.2, Option.map_map]
      rfl

theorem unicodeEscape_escape (named : Bytes → Option Char) {e : UInt8} {rest rest' : Bytes}
    {chars : List Char}
    (h : unescapeOne named e rest = some (chars, rest')) (fuel : Nat) :
    unicodeEscape named (fuel + 1) (92 :: e :: rest) = (unicodeEscape named fuel rest').map (chars ++ ·) := by
  rw [unicodeEscape, if_neg (by decide), h]

variable {printable : Char → Bool}

@[simp] theorem debugText_nil : debugText printable [] = [] := rfl

@[simp] theorem debugText_cons (c : Char) (text : List Char) :
    debugText printable (c :: text) = debugChar printable c ++ debugText printable text := rfl

theorem debugText_append (text text' : List Char) :
    debugText printable (text ++ text') = debugText printable text ++ debugText printable text' :=
  List.flatMap_append

-- A character that is not coded stands for itself, or has a backslash and a letter.
theorem debugChar_cases {c : Char} (h : coded printable c = false) :
    (c = '\x00' ∧ debugChar printable c = ['\\', '0']) ∨
    (∃ e : Char, (0x20 ≤ e.toNat ∧ e.toNat < 0x7f) ∧ debugChar printable c = ['\\', e] ∧ c.toNat < 0x80 ∧
      c ≠ '\x00' ∧ ∀ named rest, unescapeOne named (UInt8.ofNat e.toNat) rest = some ([c], rest)) ∨
    (debugChar printable c = [c] ∧ c ≠ '"' ∧ c ≠ '\\' ∧ c ≠ '\x00' ∧ byCode printable c = false) := by
  unfold debugChar
  by_cases hnul : c = '\x00'
  · exact .inl ⟨hnul, if_pos hnul⟩
  rw [if_neg hnul]
  by_cases htab : c = '\t'
  · subst htab
    exact .inr (.inl ⟨'t', by decide, if_pos rfl, by decide, by decide, fun _ _ => rfl⟩)
  rw [if_neg htab]
  by_cases hcr : c = '\r'
  · subst hcr
    exact .inr (.inl ⟨'r', by decide, if_pos rfl, by decide, by decide, fun _ _ => rfl⟩)
  rw [if_neg hcr]
  by_cases hlf : c = '\n'
  · subst hlf
    exact .inr (.inl ⟨'n', by decide, if_pos rfl, by decide, by decide, fun _ _ => rfl⟩)
  rw [if_neg hlf]
  by_cases hquote : c = '"' ∨ c = '\\'
  · rw [if_pos hquote]
    refine .inr (.inl ⟨c, ?_, rfl, ?_, hnul, ?_⟩)
    · rcases hquote with rfl | rfl <;> decide
    · rcases hquote with rfl | rfl <;> decide
    · rcases hquote with rfl | rfl <;> exact fun _ _ => rfl
  · have hplain : byCode printable c = false := by
      simpa [coded, hasEscape, hnul, htab, hcr, hlf] using h
    rw [if_neg hquote, if_neg (by rw [hplain]; exact Bool.false_ne_true)]
    rw [not_or] at hquote
    exact .inr (.inr ⟨rfl, hquote.1, hquote.2, hnul, hplain⟩)

-- What is printed begins with an octal digit just if the character is one.
theorem debugChar_octal {c : Char} (h : isOctal c = true) : debugChar printable c = [c] := by
  have hrange := octal_toNat h
  have hne : ∀ d : Char, d.toNat < 48 ∨ 55 < d.toNat → c ≠ d := by
    intro d hd heq
    subst heq
    omega
  have hcode : byCode printable c = false := by
    simp only [byCode, Bool.or_eq_false_iff, Bool.and_eq_false_iff, decide_eq_false_iff_not]
    omega
  unfold debugChar
  rw [if_neg (hne _ (by decide)), if_neg (hne _ (by decide)), if_neg (hne _ (by decide)),
    if_neg (hne _ (by decide)), if_neg (not_or.mpr ⟨hne _ (by decide), hne _ (by decide)⟩), hcode,
    if_neg Bool.false_ne_true]

theorem debugChar_not_octal {c : Char} (h : isOctal c = false) (hc : coded printable c = false) :
    ∃ b bytes, Utf8.encode (debugChar printable c) = b :: bytes ∧ ¬(48 ≤ b ∧ b ≤ 55) := by
  rcases debugChar_cases hc with ⟨_, he⟩ | ⟨e, hascii, he, _⟩ | ⟨he, _⟩
  · exact ⟨92, [48], by rw [he]; rfl, by decide⟩
  · refine ⟨92, [UInt8.ofNat e.toNat], ?_, by decide⟩
    rw [he]
    simp only [Utf8.encode_cons, Utf8.encode_nil, encodeChar_ascii (Nat.lt_succ_of_lt hascii.2)]
    rfl
  · rw [he, Utf8.encode_cons, Utf8.encode_nil, List.append_nil]
    cases hbytes : String.utf8EncodeChar c with
    | nil => exact absurd hbytes (Utf8.encodeChar_ne_nil c)
    | cons b bytes =>
        refine ⟨b, bytes, rfl, ?_⟩
        rintro ⟨hlow, hhigh⟩
        have hlow' : 48 ≤ b.toNat := hlow
        have hhigh' : b.toNat ≤ 55 := hhigh
        by_cases hascii : c.toNat < 0x80
        · rw [encodeChar_ascii hascii] at hbytes
          obtain ⟨rfl, _⟩ := List.cons.inj hbytes
          rw [UInt8.toNat_ofNat', Nat.mod_eq_of_lt (by omega)] at hlow' hhigh'
          rw [(isOctal_iff c).mpr ⟨hlow', hhigh'⟩] at h
          cases h
        · have hmem : b ∈ String.utf8EncodeChar c := by
            rw [hbytes]
            exact List.mem_cons_self
          have hwide := encodeChar_wide (Nat.not_lt.mp hascii) hmem
          omega

def octalValue (digits : List Char) (value : Nat) : Nat :=
  digits.foldl (fun value c => value * 8 + (c.toNat - 48)) value

-- What the digits of an octal escape cannot go on into.
def Stops (tail : Bytes) : Prop := ∀ b rest, tail = b :: rest → ¬(48 ≤ b ∧ b ≤ 55)

theorem scanOctal_stops {tail : Bytes} (h : Stops tail) (n value : Nat) :
    scanOctal n value tail = (value, tail) := by
  cases n with
  | zero => cases tail <;> rfl
  | succ n =>
      cases tail with
      | nil => rfl
      | cons b rest => rw [scanOctal, if_neg (h b rest rfl)]

theorem scanOctal_debug {text : List Char} (h : ∀ c ∈ text, coded printable c = false) {tail : Bytes}
    (htail : Stops tail) (n value : Nat) :
    scanOctal n value (Utf8.encode (debugText printable text) ++ tail) =
      (octalValue ((text.take n).takeWhile isOctal) value,
        Utf8.encode (debugText printable (text.drop ((text.take n).takeWhile isOctal).length)) ++ tail) := by
  induction n generalizing text value with
  | zero => simp [scanOctal, octalValue]
  | succ n ih =>
      cases text with
      | nil => exact scanOctal_stops htail (n + 1) value
      | cons c text =>
          rw [List.forall_mem_cons] at h
          rw [debugText_cons, Utf8.encode_append, List.take_succ_cons, List.append_assoc]
          by_cases hoctal : isOctal c = true
          · have hrange := octal_toNat hoctal
            have hbyte : (UInt8.ofNat c.toNat).toNat = c.toNat := by
              rw [UInt8.toNat_ofNat', Nat.mod_eq_of_lt (by omega)]
            have hdigit : 48 ≤ UInt8.ofNat c.toNat ∧ UInt8.ofNat c.toNat ≤ 55 := by
              refine ⟨UInt8.le_iff_toNat_le.mpr ?_, UInt8.le_iff_toNat_le.mpr ?_⟩
              · rw [hbyte]
                exact hrange.1
              · rw [hbyte]
                exact hrange.2
            rw [debugChar_octal hoctal, Utf8.encode_cons, encodeChar_ascii (by omega), Utf8.encode_nil,
              List.append_nil, List.cons_append, List.nil_append, scanOctal, if_pos hdigit, ih h.2,
              List.takeWhile_cons_of_pos hoctal, hbyte]
            rfl
          · rw [Bool.not_eq_true] at hoctal
            obtain ⟨b, bytes, hb, hno⟩ := debugChar_not_octal hoctal h.1
            have hstops : Stops (Utf8.encode (debugChar printable c) ++
                (Utf8.encode (debugText printable text) ++ tail)) := by
              intro b' rest heq
              rw [hb] at heq
              rw [← (List.cons.inj heq).1]
              exact hno
            rw [scanOctal_stops hstops, List.takeWhile_cons_of_neg (by rw [hoctal]; exact Bool.false_ne_true),
              ← List.append_assoc, ← Utf8.encode_append, ← debugText_cons]
            rfl

theorem octalValue_lt {digits : List Char} (h : ∀ c ∈ digits, isOctal c = true) (value : Nat) :
    octalValue digits value < (value + 1) * 8 ^ digits.length := by
  induction digits generalizing value with
  | nil => simp [octalValue]
  | cons c digits ih =>
      rw [List.forall_mem_cons] at h
      have hrange := octal_toNat h.1
      have hrest := ih h.2 (value * 8 + (c.toNat - 48))
      have hle : (value * 8 + (c.toNat - 48) + 1) * 8 ^ digits.length ≤ (value * 8 + 8) * 8 ^ digits.length :=
        Nat.mul_le_mul_right _ (by omega)
      have heq : (value * 8 + 8) * 8 ^ digits.length = (value + 1) * 8 ^ (c :: digits).length := by
        rw [List.length_cons, Nat.pow_succ, Nat.mul_comm (8 ^ digits.length) 8, ← Nat.mul_assoc]
        congr 1
        omega
      exact heq ▸ Nat.lt_of_lt_of_le hrest hle

theorem latin1_ascii {c : Char} (hc : c.toNat < 0x80) : PyText.latin1 [UInt8.ofNat c.toNat] = [c] := by
  have hbyte : (UInt8.ofNat c.toNat).toNat = c.toNat := by
    rw [UInt8.toNat_ofNat', Nat.mod_eq_of_lt (by omega)]
  show [Char.ofNat (UInt8.ofNat c.toNat).toNat] = [c]
  rw [hbyte, Char.ofNat_toNat]

theorem backslash_not_mem {c : Char} (hc : c ≠ '\\') : (92 : UInt8) ∉ String.utf8EncodeChar c := by
  intro hmem
  by_cases hascii : c.toNat < 0x80
  · rw [encodeChar_ascii hascii] at hmem
    have hbyte := congrArg UInt8.toNat (List.mem_singleton.mp hmem)
    rw [UInt8.toNat_ofNat', Nat.mod_eq_of_lt (by omega)] at hbyte
    apply hc
    rw [← Char.ofNat_toNat c, ← hbyte]
    rfl
  · have hwide := encodeChar_wide (Nat.not_lt.mp hascii) hmem
    exact absurd hwide (by decide)

-- A NUL takes up to two octal digits that follow it.
theorem unescape_nul (named : Bytes → Option Char) {rest : List Char}
    (h : ∀ c ∈ rest, coded printable c = false)
    {tail : Bytes} (htail : Stops tail) :
    ∃ digits more value, rest = digits ++ more ∧ (∀ c ∈ digits, isOctal c = true) ∧ value < 64 ∧
      (digits = [] → octalHead rest = false ∧ value = 0) ∧
      unescapeOne named 48 (Utf8.encode (debugText printable rest) ++ tail) =
        some ([Char.ofNat value], Utf8.encode (debugText printable more) ++ tail) := by
  have hdigits : ∀ d ∈ (rest.take 2).takeWhile isOctal, isOctal d = true :=
      fun d hd => List.mem_takeWhile_imp hd
  have hcount : ((rest.take 2).takeWhile isOctal).length ≤ 2 :=
    Nat.le_trans (List.takeWhile_prefix _).length_le (List.length_take_le 2 rest)
  have hfront : (rest.take 2).takeWhile isOctal <+: rest :=
    (List.takeWhile_prefix _).trans (List.take_prefix 2 rest)
  have hscan := scanOctal_debug h htail 2 0
  refine ⟨_, _, octalValue ((rest.take 2).takeWhile isOctal) 0, (List.prefix_iff_eq_append.mp hfront).symm,
    hdigits, ?_, ?_, ?_⟩
  · have hlt := octalValue_lt hdigits 0
    have hle : 8 ^ ((rest.take 2).takeWhile isOctal).length ≤ 8 ^ 2 := Nat.pow_le_pow_right (by omega) hcount
    omega
  · intro hnone
    refine ⟨?_, by rw [hnone]; rfl⟩
    cases rest with
    | nil => rfl
    | cons d rest =>
        rw [List.take_succ_cons] at hnone
        cases hd : isOctal d with
        | true =>
            rw [List.takeWhile_cons_of_pos hd] at hnone
            cases hnone
        | false => exact hd
  · show some ([Char.ofNat (scanOctal 2 0 _).1], (scanOctal 2 0 _).2) = _
    rw [hscan]

-- How the codec reads what is printed, if there is no code point in it.
theorem misread_debug (named : Bytes → Option Char) {text : List Char}
    (h : ∀ c ∈ text, coded printable c = false) {tail : Bytes} (htail : Stops tail) :
    ∃ out, Misread text out ∧ ∀ fuel, (Utf8.encode (debugText printable text) ++ tail).length ≤ fuel →
      ∃ fuel', tail.length ≤ fuel' ∧
        unicodeEscape named fuel (Utf8.encode (debugText printable text) ++ tail) =
        (unicodeEscape named fuel' tail).map (out ++ ·) := by
  induction hlen : text.length using Nat.strong_induction_on generalizing text with
  | _ size ih =>
      subst hlen
      cases text with
      | nil => exact ⟨[], .nil, fun fuel hfuel => ⟨fuel, hfuel, by simp⟩⟩
      | cons c rest =>
          rw [List.forall_mem_cons] at h
          rcases debugChar_cases h.1 with ⟨rfl, he⟩ | ⟨e, hascii, he, hc, hnul, hone⟩ |
              ⟨he, _, hslash, hnul, _⟩
          · obtain ⟨digits, more, value, rfl, hdigits, hvalue, hnone, hone⟩ := unescape_nul named h.2 htail
            obtain ⟨out, hmis, hout⟩ := ih more.length
              (by rw [List.length_cons, List.length_append]; omega)
              (fun d hd => h.2 d (List.mem_append_right _ hd)) rfl
            refine ⟨Char.ofNat value :: out, ?_, fun fuel hfuel => ?_⟩
            · by_cases hempty : digits = []
              · obtain ⟨hhead, rfl⟩ := hnone hempty
                subst hempty
                exact .same '\x00' (by decide) (fun _ => hhead) hmis
              · exact .octal digits value hempty hdigits hvalue hmis
            · have hbytes : Utf8.encode (debugText printable ('\x00' :: (digits ++ more))) ++ tail =
                  92 :: 48 :: (Utf8.encode (debugText printable (digits ++ more)) ++ tail) := by
                rw [debugText_cons, he]
                rfl
              have hmore : (Utf8.encode (debugText printable more) ++ tail).length ≤
                  (Utf8.encode (debugText printable (digits ++ more)) ++ tail).length := by
                rw [debugText_append, Utf8.encode_append]
                simp only [List.length_append]
                omega
              rw [hbytes] at hfuel ⊢
              simp only [List.length_cons] at hfuel
              obtain ⟨fuel, rfl⟩ : ∃ n, fuel = n + 1 := ⟨fuel - 1, by omega⟩
              obtain ⟨fuel', hfuel', hrest⟩ := hout fuel (by omega)
              refine ⟨fuel', hfuel', ?_⟩
              rw [unicodeEscape_escape named hone, hrest, Option.map_map]
              rfl
          · obtain ⟨out, hmis, hout⟩ := ih rest.length (Nat.lt_succ_self _) h.2 rfl
            refine ⟨c :: out, .same c hc (fun hn => absurd hn hnul) hmis, fun fuel hfuel => ?_⟩
            have hbytes : Utf8.encode (debugText printable (c :: rest)) ++ tail =
                92 :: UInt8.ofNat e.toNat :: (Utf8.encode (debugText printable rest) ++ tail) := by
              rw [debugText_cons, he]
              simp only [Utf8.encode_append, Utf8.encode_cons, Utf8.encode_nil,
                encodeChar_ascii (Nat.lt_succ_of_lt hascii.2)]
              rfl
            rw [hbytes] at hfuel ⊢
            simp only [List.length_cons] at hfuel
            obtain ⟨fuel, rfl⟩ : ∃ n, fuel = n + 1 := ⟨fuel - 1, by omega⟩
            obtain ⟨fuel', hfuel', hrest⟩ := hout fuel (by omega)
            refine ⟨fuel', hfuel', ?_⟩
            rw [unicodeEscape_escape named (hone named _), hrest, Option.map_map]
            rfl
          · obtain ⟨out, hmis, hout⟩ := ih rest.length (Nat.lt_succ_self _) h.2 rfl
            refine ⟨PyText.latin1 (String.utf8EncodeChar c) ++ out, ?_, fun fuel hfuel => ?_⟩
            · by_cases hascii : c.toNat < 0x80
              · rw [encodeChar_ascii hascii, latin1_ascii hascii]
                exact .same c hascii (fun hn => absurd hn hnul) hmis
              · exact .wide c (Nat.not_lt.mp hascii) hmis
            · have hbytes : Utf8.encode (debugText printable (c :: rest)) ++ tail =
                  String.utf8EncodeChar c ++ (Utf8.encode (debugText printable rest) ++ tail) := by
                rw [debugText_cons, he, Utf8.encode_append, Utf8.encode_cons, Utf8.encode_nil,
                  List.append_nil,
                  List.append_assoc]
              rw [hbytes] at hfuel ⊢
              rw [List.length_append] at hfuel
              obtain ⟨fuel, rfl⟩ : ∃ n, fuel = (String.utf8EncodeChar c).length + n :=
                ⟨fuel - (String.utf8EncodeChar c).length, by omega⟩
              obtain ⟨fuel', hfuel', hrest⟩ := hout fuel (by omega)
              refine ⟨fuel', hfuel', ?_⟩
              rw [unicodeEscape_plain named (backslash_not_mem hslash), hrest, Option.map_map]
              congr 1
              funext x
              exact (List.append_assoc _ _ _).symm

theorem stops_nil : Stops [] := fun _ _ h => nomatch h

theorem unescape_debug (named : Bytes → Option Char) {text : List Char}
    (h : ∀ c ∈ text, coded printable c = false) :
    ∃ out, Misread text out ∧ unescape named (debugText printable text) = .ok out := by
  obtain ⟨out, hmis, hout⟩ := misread_debug named h stops_nil
  obtain ⟨fuel', _, heq⟩ := hout _ (Nat.le_refl _)
  have hend : unicodeEscape named fuel' [] = some [] := by cases fuel' <;> rfl
  rw [List.append_nil, hend] at heq
  refine ⟨out, hmis, ?_⟩
  unfold unescape
  rw [heq, Option.map_some, List.append_nil]

theorem debugChar_coded {c : Char} (h : coded printable c = true) :
    debugChar printable c = '\\' :: 'u' :: '\x7b' :: Nat.toDigits 16 c.toNat ++ ['\x7d'] := by
  rw [coded, Bool.and_eq_true, Bool.not_eq_true'] at h
  obtain ⟨hcode, hno⟩ := h
  simp only [hasEscape, Bool.or_eq_false_iff, decide_eq_false_iff_not] at hno
  have hquote : ¬(c = '"' ∨ c = '\\') := by
    rintro (rfl | rfl)
    · cases hcode
    · cases hcode
  unfold debugChar
  rw [if_neg hno.1.1.1, if_neg hno.1.1.2, if_neg hno.1.2, if_neg hno.2, if_neg hquote, if_pos hcode]

theorem first_coded {text : List Char} (h : ∃ c ∈ text, coded printable c = true) :
    ∃ first c rest, text = first ++ c :: rest ∧ coded printable c = true ∧
      ∀ d ∈ first, coded printable d = false := by
  induction text with
  | nil =>
      obtain ⟨c, hc, _⟩ := h
      cases hc
  | cons c text ih =>
      by_cases hc : coded printable c = true
      · exact ⟨[], c, text, rfl, hc, by simp⟩
      · have hrest : ∃ c ∈ text, coded printable c = true := by
          obtain ⟨d, hd, hcoded⟩ := h
          rcases List.mem_cons.mp hd with rfl | hd
          · exact absurd hcoded hc
          · exact ⟨d, hd, hcoded⟩
        obtain ⟨first, d, rest, rfl, hd, hfirst⟩ := ih hrest
        refine ⟨c :: first, d, rest, rfl, hd, ?_⟩
        rw [List.forall_mem_cons]
        exact ⟨Bool.eq_false_iff.mpr hc, hfirst⟩

-- At a code point there is an error: a brace is no hexadecimal digit.
theorem unescape_coded (named : Bytes → Option Char) {text : List Char}
    (h : ∃ c ∈ text, coded printable c = true) :
    unescape named (debugText printable text) = .error .valueError := by
  obtain ⟨first, c, rest, rfl, hc, hfirst⟩ := first_coded h
  obtain ⟨more, hmore⟩ : ∃ more, Utf8.encode (debugText printable (first ++ c :: rest)) =
      Utf8.encode (debugText printable first) ++ 92 :: 117 :: 123 :: more := by
    refine ⟨Utf8.encode (Nat.toDigits 16 c.toNat ++ ['\x7d']) ++ Utf8.encode (debugText printable rest), ?_⟩
    rw [debugText_append, debugText_cons, debugChar_coded hc, Utf8.encode_append, Utf8.encode_append]
    rfl
  have hstops : Stops (92 :: 117 :: 123 :: more) := by
    intro b tail heq
    rw [← (List.cons.inj heq).1]
    decide
  obtain ⟨out, _, hout⟩ := misread_debug named hfirst hstops
  obtain ⟨fuel', hfuel', heq⟩ := hout _ (Nat.le_refl _)
  obtain ⟨fuel', rfl⟩ : ∃ n, fuel' = n + 1 := ⟨fuel' - 1, by simp only [List.length_cons] at hfuel'; omega⟩
  have hbrace : unescapeOne named 117 (123 :: more) = none := rfl
  have hnone : unicodeEscape named (fuel' + 1) (92 :: 117 :: 123 :: more) = none := by
    rw [unicodeEscape, if_neg (by decide), hbrace]
  unfold unescape
  rw [hmore, heq, hnone]
  rfl

-- The misreading is right just for a text that reads back, and always Latin-1.
theorem Misread.eq_of_readsBack {text out : List Char} (h : Misread text out)
    (hback : readsBack text = true) :
    out = text := by
  induction h with
  | nil => rfl
  | same c hc hnul h ih =>
      rw [readsBack, Bool.and_eq_true] at hback
      rw [ih hback.2]
  | wide c hc h ih =>
      simp only [readsBack, Bool.and_eq_true, decide_eq_true_eq] at hback
      omega
  | octal digits value hne hdigits hvalue h ih =>
      cases digits with
      | nil => exact absurd rfl hne
      | cons d digits =>
          have hd := hdigits d List.mem_cons_self
          simp [readsBack, octalHead, hd] at hback

theorem Misread.latin1 {text out : List Char} (h : Misread text out) : ∀ c ∈ out, c.toNat < 0x100 := by
  induction h with
  | nil => simp
  | same c hc hnul h ih =>
      rw [List.forall_mem_cons]
      exact ⟨by omega, ih⟩
  | wide c hc h ih =>
      intro d hd
      rcases List.mem_append.mp hd with hd | hd
      · obtain ⟨b, _, rfl⟩ := List.mem_map.mp hd
        have hb := b.toNat_lt
        rw [toNat_ofNat (by omega)]
        exact hb
      · exact ih d hd
  | octal digits value hne hdigits hvalue h ih =>
      rw [List.forall_mem_cons, toNat_ofNat (by omega)]
      exact ⟨by omega, ih⟩

def wideCount (text : List Char) : Nat := text.countP fun c => 0x80 ≤ c.toNat

theorem wideCount_cons (c : Char) (text : List Char) :
    wideCount (c :: text) = wideCount text + if 0x80 ≤ c.toNat then 1 else 0 := by
  simp [wideCount, List.countP_cons]

theorem wideCount_append (text text' : List Char) :
    wideCount (text ++ text') = wideCount text + wideCount text' :=
  List.countP_append

theorem wideCount_eq_zero {text : List Char} (h : ∀ c ∈ text, c.toNat < 0x80) : wideCount text = 0 := by
  rw [wideCount, List.countP_eq_zero]
  intro c hc hwide
  rw [decide_eq_true_eq] at hwide
  exact absurd (h c hc) (by omega)

theorem wideCount_latin1 {c : Char} (hc : 0x80 ≤ c.toNat) :
    2 ≤ wideCount (PyText.latin1 (String.utf8EncodeChar c)) := by
  have hall : wideCount (PyText.latin1 (String.utf8EncodeChar c)) = (String.utf8EncodeChar c).length := by
    rw [wideCount, List.countP_eq_length.mpr, PyText.latin1, List.length_map]
    intro d hd
    obtain ⟨b, hb, rfl⟩ := List.mem_map.mp hd
    have hlt := b.toNat_lt
    rw [toNat_ofNat (by omega), decide_eq_true_eq]
    exact encodeChar_wide hc hb
  have hpos := c.utf8Size_pos
  have hone : c.utf8Size ≠ 1 := by
    intro hsize
    have hle : c.toNat ≤ 127 := Char.utf8Size_eq_one_iff.mp hsize
    omega
  rw [hall, String.length_utf8EncodeChar]
  omega

-- A character beyond ASCII becomes several.
theorem Misread.wideCount_le {text out : List Char} (h : Misread text out) :
    wideCount text ≤ wideCount out ∧ (wideCount text = wideCount out → ∀ c ∈ text, c.toNat < 0x80) := by
  induction h with
  | nil => simp
  | same c hc hnul h ih =>
      rw [wideCount_cons, wideCount_cons, if_neg (by omega), List.forall_mem_cons]
      exact ⟨ih.1, fun heq => ⟨hc, ih.2 heq⟩⟩
  | wide c hc h ih =>
      have htwo := wideCount_latin1 hc
      rw [wideCount_cons, wideCount_append, if_pos hc]
      exact ⟨by omega, fun heq => by omega⟩
  | @octal digits value rest out hne hdigits hvalue h ih =>
      have hascii : ∀ c ∈ '\x00' :: digits, c.toNat < 0x80 := by
        rw [List.forall_mem_cons]
        refine ⟨by decide, fun d hd => ?_⟩
        have hrange := octal_toNat (hdigits d hd)
        omega
      have hchar : (Char.ofNat value).toNat = value := toNat_ofNat (by omega)
      rw [wideCount_append, wideCount_eq_zero hascii, wideCount_cons, hchar, if_neg (by omega)]
      refine ⟨by omega, fun heq d hd => ?_⟩
      rcases List.mem_append.mp hd with hd | hd
      · exact hascii d hd
      · exact ih.2 (by omega) d hd

-- A NUL and its digits become one character.
theorem Misread.length_le {text out : List Char} (h : Misread text out)
    (hascii : ∀ c ∈ text, c.toNat < 0x80) :
    out.length ≤ text.length ∧ (out.length = text.length → readsBack text = true) := by
  induction h with
  | nil => simp [readsBack]
  | same c hc hnul h ih =>
      rw [List.forall_mem_cons] at hascii
      obtain ⟨hle, hback⟩ := ih hascii.2
      rw [List.length_cons, List.length_cons]
      refine ⟨by omega, fun heq => ?_⟩
      simp only [readsBack, Bool.and_eq_true, decide_eq_true_eq, Bool.not_eq_true', Bool.and_eq_false_iff,
        decide_eq_false_iff_not]
      refine ⟨⟨hc, ?_⟩, hback (by omega)⟩
      by_cases hn : c = '\x00'
      · exact .inr (hnul hn)
      · exact .inl hn
  | wide c hc h ih =>
      rw [List.forall_mem_cons] at hascii
      omega
  | @octal digits value rest out hne hdigits hvalue h ih =>
      have hpos := List.length_pos_iff.mpr hne
      have hle := (ih fun d hd => hascii d (List.mem_append_right _ hd)).1
      simp only [List.length_cons, List.length_append]
      exact ⟨by omega, fun heq => by omega⟩

-- Even with its letters lowered it is right only then.
theorem Misread.readsBack_of_lower {text out : List Char} (h : Misread text out)
    (heq : PyText.lowerText out = text) : readsBack text = true := by
  rw [PyText.lowerText_latin1 h.latin1] at heq
  have hcount : wideCount (out.map PyText.lowerChar) = wideCount out := by
    rw [wideCount, wideCount, List.countP_map]
    apply List.countP_congr
    intro c hc
    rw [Function.comp_apply, decide_eq_true_eq, decide_eq_true_eq]
    exact PyText.lowerChar_wide (h.latin1 c hc)
  rw [heq] at hcount
  have hascii := h.wideCount_le.2 hcount
  have hlen := congrArg List.length heq
  rw [List.length_map] at hlen
  exact (h.length_le hascii).2 hlen

theorem Misread.readsBack_iff {text out : List Char} (h : Misread text out) :
    out = text ↔ readsBack text = true := by
  refine ⟨fun heq => ?_, h.eq_of_readsBack⟩
  have hascii := h.wideCount_le.2 (by rw [heq])
  exact (h.length_le hascii).2 (by rw [heq])

end NeverFox.H3
