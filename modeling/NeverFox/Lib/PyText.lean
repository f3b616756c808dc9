import Mathlib.Algebra.Order.Ring.Nat
import Mathlib.Data.List.Basic
import Mathlib.Data.List.DropRight
import NeverFox.Lib.PyCase

namespace PyText

-- The characters `str.isspace` accepts, and so the ones `str.strip` removes.
def isSpace (c : Char) : Bool :=
  (0x09 ≤ c.toNat && c.toNat ≤ 0x0d) || (0x1c ≤ c.toNat && c.toNat ≤ 0x20) ||
    c.toNat = 0x85 || c.toNat = 0xa0 || c.toNat = 0x1680 ||
    (0x2000 ≤ c.toNat && c.toNat ≤ 0x200a) || c.toNat = 0x2028 || c.toNat = 0x2029 ||
    c.toNat = 0x202f || c.toNat = 0x205f || c.toNat = 0x3000

-- `bytes.strip` and the C scanner of `int` only know the ASCII blanks.
def isAsciiSpace (c : Char) : Bool :=
  (0x09 ≤ c.toNat && c.toNat ≤ 0x0d) || c.toNat = 0x20

def strip (blank : Char → Bool) (text : List Char) : List Char :=
  (text.dropWhile blank).rdropWhile blank

-- The zero of every block of ten decimal digits beyond ASCII, in Unicode 14.
def decimalZeros : List Nat :=
  [0x660, 0x6f0, 0x7c0, 0x966, 0x9e6, 0xa66, 0xae6, 0xb66, 0xbe6, 0xc66, 0xce6, 0xd66, 0xde6,
    0xe50, 0xed0, 0xf20, 0x1040, 0x1090, 0x17e0, 0x1810, 0x1946, 0x19d0, 0x1a80, 0x1a90, 0x1b50,
    0x1bb0, 0x1c40, 0x1c50, 0xa620, 0xa8d0, 0xa900, 0xa9d0, 0xa9f0, 0xaa50, 0xabf0, 0xff10,
    0x104a0, 0x10d30, 0x11066, 0x110f0, 0x11136, 0x111d0, 0x112f0, 0x11450, 0x114d0, 0x11650,
    0x116c0, 0x11730, 0x118e0, 0x11950, 0x11c50, 0x11d50, 0x11da0, 0x16a60, 0x16ac0, 0x16b50,
    0x1d7ce, 0x1d7d8, 0x1d7e2, 0x1d7ec, 0x1d7f6, 0x1e140, 0x1e2f0, 0x1e950, 0x1fbf0]

-- `int(str)` first maps every decimal digit and blank beyond ASCII to its
-- ASCII counterpart and everything else there to a character no number has.
def toAscii (c : Char) : Char :=
  if c.toNat < 127 then c
  else if isSpace c then ' '
  else match decimalZeros.find? fun first => first ≤ c.toNat && c.toNat < first + 10 with
    | some first => Char.ofNat (48 + (c.toNat - first))
    | none => '?'

def digitValue (c : Char) : Option Nat :=
  if '0' ≤ c ∧ c ≤ '9' then some (c.toNat - 48)
  else if 'a' ≤ c ∧ c ≤ 'z' then some (c.toNat - 87)
  else if 'A' ≤ c ∧ c ≤ 'Z' then some (c.toNat - 55)
  else none

def isDigit (base : Nat) (c : Char) : Bool :=
  match digitValue c with
  | some d => d < base
  | none => false

-- Digits with single underscores between them: the value, the number of
-- digits and what follows. A doubled or trailing underscore is an error.
def scanDigits (base : Nat) : Bool → Nat → Nat → List Char → Option (Nat × Nat × List Char)
  | underscore, value, count, [] => if underscore then none else some (value, count, [])
  | underscore, value, count, c :: rest =>
      if c = '_' then
        if underscore then none else scanDigits base true value count rest
      else if isDigit base c then
        scanDigits base false (value * base + (digitValue c).getD 0) (count + 1) rest
      else if underscore then none else some (value, count, c :: rest)

-- The default of sys.set_int_max_str_digits; it does not bind base 16.
def maxStrDigits : Nat := 4300

def scanSign : List Char → Int × List Char
  | '+' :: rest => (1, rest)
  | '-' :: rest => (-1, rest)
  | text => (1, text)

-- Base 16 allows a 0x in front of the digits, and one underscore after it.
def scanBase (base : Nat) : List Char → List Char
  | '0' :: x :: rest =>
      if base = 16 ∧ (x = 'x' ∨ x = 'X') then
        match rest with
        | '_' :: rest' => rest'
        | _ => rest
      else '0' :: x :: rest
  | text => text

-- PyLong_FromString: blanks, a sign, the digits, blanks, and nothing else.
def intLiteral (base : Nat) (text : List Char) : Option Int :=
  let (sign, unsigned) := scanSign (text.dropWhile isAsciiSpace)
  let digits := scanBase base unsigned
  if (digits.head?.map (isDigit base)).getD false then
    match scanDigits base false 0 0 digits with
    | some (value, count, rest) =>
        if base = 10 ∧ maxStrDigits < count then none
        else if rest.all isAsciiSpace then some (sign * value)
        else none
    | none => none
  else none

-- `int(text, base)` of a str.
def intOfStr (base : Nat) (text : List Char) : Option Int := intLiteral base (text.map toAscii)

-- `bytes.decode("latin1")`.
def latin1 (bytes : List UInt8) : List Char := bytes.map fun b => Char.ofNat b.toNat

-- `int(data, base)` of a bytes object.
def intOfBytes (base : Nat) (data : List UInt8) : Option Int := intLiteral base (latin1 data)

-- The value of a string of digits.
def ofDigits (base : Nat) (digits : List Char) : Nat :=
  digits.foldl (fun value c => value * base + (digitValue c).getD 0) 0

private theorem digit_cases {base : Nat} {c : Char} (hc : isDigit base c) :
    ('0' ≤ c ∧ c ≤ '9') ∨ ('a' ≤ c ∧ c ≤ 'z') ∨ ('A' ≤ c ∧ c ≤ 'Z') := by
  unfold isDigit digitValue at hc
  split at hc
  · rename_i hd
    split at hd
    · exact .inl ‹_›
    · split at hd
      · exact .inr (.inl ‹_›)
      · split at hd
        · exact .inr (.inr ‹_›)
        · cases hd
  · cases hc

private theorem digit_toNat {base : Nat} {c : Char} (hc : isDigit base c) :
    48 ≤ c.toNat ∧ c.toNat ≤ 122 ∧ c.toNat ≠ 95 := by
  have hle : ∀ a b : Char, a ≤ b → a.toNat ≤ b.toNat := fun a b h => h
  rcases digit_cases hc with ⟨h, h'⟩ | ⟨h, h'⟩ | ⟨h, h'⟩ <;> replace h := hle _ _ h <;>
    replace h' := hle _ _ h' <;> simp at h h' <;> omega

private theorem digit_ne {base : Nat} {c : Char} (hc : isDigit base c) (d : Char)
    (hd : d.toNat < 48 ∨ d.toNat = 95) : c ≠ d := by
  rintro rfl
  have hn := digit_toNat hc
  omega

theorem digit_not_space {base : Nat} {c : Char} (hc : isDigit base c) : isAsciiSpace c = false := by
  have hn := digit_toNat hc
  simp only [isAsciiSpace, Bool.or_eq_false_iff, Bool.and_eq_false_iff, decide_eq_false_iff_not]
  omega

theorem toAscii_digit {base : Nat} {c : Char} (hc : isDigit base c) : toAscii c = c := by
  have hn := digit_toNat hc
  have hlt : c.toNat < 127 := by omega
  simp [toAscii, hlt]

theorem scanDigits_digits (base : Nat) (digits : List Char) (hall : ∀ c ∈ digits, isDigit base c)
    (value count : Nat) : scanDigits base false value count digits =
      some (digits.foldl (fun value c => value * base + (digitValue c).getD 0) value,
        count + digits.length, []) := by
  induction digits generalizing value count with
  | nil => simp [scanDigits]
  | cons c rest ih =>
      have hc := hall c (by simp)
      have hne := digit_ne hc '_' (by decide)
      have hrest := ih (fun d hd => hall d (by simp [hd]))
        (value * base + (digitValue c).getD 0) (count + 1)
      unfold scanDigits
      simp only [hne, hc, ↓reduceIte, hrest, List.foldl_cons, List.length_cons]
      congr 3
      omega

theorem scanBase_digits {base : Nat} {digits : List Char} (hall : ∀ c ∈ digits, isDigit base c) :
    scanBase base digits = digits := by
  unfold scanBase
  split
  · rename_i x rest
    have hx := hall x (by simp)
    have hno : ¬(base = 16 ∧ (x = 'x' ∨ x = 'X')) := by
      rintro ⟨rfl, rfl | rfl⟩ <;> revert hx <;> decide
    rw [if_neg hno]
  · rfl

theorem map_toAscii_digits {base : Nat} {digits : List Char} (hall : ∀ c ∈ digits, isDigit base c) :
    digits.map toAscii = digits := by
  conv_rhs => rw [← List.map_id digits]
  exact List.map_congr_left fun c hc => toAscii_digit (hall c hc)

-- Digits behind a sign are a number, unless they are decimal and too many.
theorem intLiteral_signed (base : Nat) {text digits : List Char} {sign : Int}
    (hsign : scanSign (text.dropWhile isAsciiSpace) = (sign, digits)) (hne : digits ≠ [])
    (hall : ∀ c ∈ digits, isDigit base c) :
    intLiteral base text =
      if base = 10 ∧ maxStrDigits < digits.length then none
      else some (sign * (ofDigits base digits : Int)) := by
  have hhead : (digits.head?.map (isDigit base)).getD false = true := by
    obtain ⟨c, rest, rfl⟩ := List.exists_cons_of_ne_nil hne
    simp [hall c]
  have hscan := scanDigits_digits base digits hall 0 0
  unfold intLiteral
  simp only [hsign, scanBase_digits hall, hhead, ↓reduceIte, hscan, Nat.zero_add, List.all_nil]
  rfl

theorem intLiteral_digits (base : Nat) (digits : List Char) (hne : digits ≠ [])
    (hall : ∀ c ∈ digits, isDigit base c) :
    intLiteral base digits =
      if base = 10 ∧ maxStrDigits < digits.length then none
      else some (ofDigits base digits : Int) := by
  have hsign : scanSign (digits.dropWhile isAsciiSpace) = (1, digits) := by
    obtain ⟨c, rest, rfl⟩ := List.exists_cons_of_ne_nil hne
    have hc := hall c (by simp)
    have hblank : (c :: rest).dropWhile isAsciiSpace = c :: rest := by
      simp [digit_not_space hc]
    rw [hblank]
    unfold scanSign
    split
    · rename_i heq
      exact absurd (List.cons.inj heq).1 (digit_ne hc '+' (by decide))
    · rename_i heq
      exact absurd (List.cons.inj heq).1 (digit_ne hc '-' (by decide))
    · rfl
  rw [intLiteral_signed base hsign hne hall, Int.one_mul]

theorem intOfStr_digits (base : Nat) (digits : List Char) (hne : digits ≠ [])
    (hall : ∀ c ∈ digits, isDigit base c) :
    intOfStr base digits =
      if base = 10 ∧ maxStrDigits < digits.length then none
      else some (ofDigits base digits : Int) := by
  rw [intOfStr, map_toAscii_digits hall]
  exact intLiteral_digits base digits hne hall

theorem intOfStr_negative (digits : List Char) (hne : digits ≠ [])
    (hall : ∀ c ∈ digits, isDigit 10 c) :
    intOfStr 10 ('-' :: digits) =
      if maxStrDigits < digits.length then none else some (-(ofDigits 10 digits : Int)) := by
  have hmap : ('-' :: digits).map toAscii = '-' :: digits := by
    rw [List.map_cons, map_toAscii_digits hall]
    rfl
  have hsign : scanSign (('-' :: digits).dropWhile isAsciiSpace) = (-1, digits) := by
    rw [List.dropWhile_cons_of_neg (by decide)]
    rfl
  rw [intOfStr, hmap, intLiteral_signed 10 hsign hne hall]
  simp only [true_and, Int.neg_mul, Int.one_mul]

-- Only a minus sign makes a number negative.
theorem toAscii_ne_minus {c : Char} (hc : c ≠ '-') : toAscii c ≠ '-' := by
  unfold toAscii
  split
  · exact hc
  · split
    · decide
    · split
      · rename_i first hfind
        have hrange := List.find?_some hfind
        simp only [Bool.and_eq_true, decide_eq_true_eq] at hrange
        have hdigit : ∀ d < 10, Char.ofNat (48 + d) ≠ '-' := by decide
        exact hdigit _ (by omega)
      · decide

theorem intLiteral_nonneg {base : Nat} {text : List Char} {n : Int} (hminus : '-' ∉ text)
    (h : intLiteral base text = some n) : 0 ≤ n := by
  have hsign : (scanSign (text.dropWhile isAsciiSpace)).1 = 1 := by
    unfold scanSign
    split
    · rfl
    · rename_i rest heq
      have hmem : '-' ∈ text.dropWhile isAsciiSpace := by rw [heq]; exact List.mem_cons_self
      exact absurd ((List.dropWhile_sublist _).subset hmem) hminus
    · rfl
  unfold intLiteral at h
  dsimp only at h
  rw [hsign] at h
  split at h
  · split at h
    · split at h
      · cases h
      · split at h
        · obtain rfl := Option.some.inj h
          omega
        · cases h
    · cases h
  · cases h

theorem intOfStr_nonneg {base : Nat} {text : List Char} {n : Int} (hminus : '-' ∉ text)
    (h : intOfStr base text = some n) : 0 ≤ n := by
  apply intLiteral_nonneg _ h
  intro hmem
  obtain ⟨c, hc, heq⟩ := List.mem_map.mp hmem
  exact toAscii_ne_minus (fun he => hminus (he ▸ hc)) heq

-- The digits that `str(n)` gives of a number.
theorem isDigit_toDigits {n : Nat} {c : Char} (hc : c ∈ Nat.toDigits 10 n) :
    isDigit 10 c ∧ (digitValue c).getD 0 = c.toNat - 48 := by
  have hdigit := Nat.isDigit_of_mem_toDigits (by decide) (by decide) hc
  have hrange : '0' ≤ c ∧ c ≤ '9' := Char.isDigit_iff_toNat.mp hdigit
  have hle : c.toNat ≤ '9'.toNat := hrange.2
  have hvalue : digitValue c = some (c.toNat - 48) := by
    unfold digitValue
    rw [if_pos hrange]
  refine ⟨?_, by rw [hvalue, Option.getD_some]⟩
  have hnine : '9'.toNat = 57 := rfl
  simp only [isDigit, hvalue, decide_eq_true_eq]
  omega

theorem ofDigits_toDigits (n : Nat) : ofDigits 10 (Nat.toDigits 10 n) = n := by
  have hfold : ∀ (digits : List Char) (value : Nat),
      (∀ c ∈ digits, (digitValue c).getD 0 = c.toNat - 48) →
      digits.foldl (fun value c => value * 10 + (digitValue c).getD 0) value =
        Nat.ofDigitChars 10 digits value := by
    intro digits
    induction digits with
    | nil => intro value _; rfl
    | cons c rest ih =>
        intro value hall
        have hzero : '0'.toNat = 48 := rfl
        rw [List.foldl_cons, Nat.ofDigitChars_cons, hall c List.mem_cons_self, Nat.mul_comm value 10, hzero]
        exact ih _ fun d hd => hall d (List.mem_cons_of_mem _ hd)
  unfold ofDigits
  rw [hfold _ 0 fun c hc => (isDigit_toDigits hc).2, Nat.ofDigitChars_ten_toDigits]

theorem intLiteral_toDigits {n : Nat} (hn : n < 10 ^ maxStrDigits) :
    intLiteral 10 (Nat.toDigits 10 n) = some (n : Int) := by
  have hlen := (Nat.length_toDigits_le_iff (b := 10) (by decide) (by decide : 0 < maxStrDigits)).mpr hn
  rw [intLiteral_digits 10 _ Nat.toDigits_ne_nil fun c hc => (isDigit_toDigits hc).1,
    if_neg (by omega), ofDigits_toDigits]

theorem strip_cons_blank {blank : Char → Bool} {c : Char} (hc : blank c = true) (text : List Char) :
    strip blank (c :: text) = strip blank text := by
  unfold strip
  rw [List.dropWhile_cons_of_pos hc]

theorem count_dropWhile (blank : Char → Bool) (text : List Char) (c : Char) (hc : blank c = false) :
    (text.dropWhile blank).count c = text.count c := by
  induction text with
  | nil => rfl
  | cons d rest ih =>
      by_cases hd : blank d = true
      · have hne : d ≠ c := by
          rintro rfl
          simp [hc] at hd
        simp [hd, ih, hne]
      · simp [hd]

-- Stripping only takes away blanks.
theorem count_strip (blank : Char → Bool) (text : List Char) (c : Char) (hc : blank c = false) :
    (strip blank text).count c = text.count c := by
  rw [strip, List.rdropWhile, List.count_reverse, count_dropWhile blank _ c hc, List.count_reverse,
    count_dropWhile blank _ c hc]

example : intOfStr 10 " 200 ".toList = some 200 := by decide
example : intOfStr 16 "-0x_1f".toList = some (-31) := by decide
example : intOfStr 16 "1__f".toList = none := by decide

end PyText
