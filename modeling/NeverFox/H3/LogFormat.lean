import NeverFox.H3.RustDebug

namespace NeverFox.H3

variable {printable : Char → Bool}

-- A value as the log has it: a string, or a list of octets.
inductive LoggedValue
  | text (chars : List Char)
  | octets (bytes : Bytes)

structure LoggedHeader where
  name : List Char
  value : LoggedValue

def moreOctets : Bytes → List Char
  | [] => []
  | b :: bytes => ',' :: ' ' :: Nat.toDigits 10 b.toNat ++ moreOctets bytes

def debugOctets : Bytes → List Char
  | [] => []
  | b :: bytes => Nat.toDigits 10 b.toNat ++ moreOctets bytes

def LoggedValue.raw (printable : Char → Bool) : LoggedValue → RawValue
  | .text chars => .quoted (debugText printable chars)
  | .octets bytes => .list (debugOctets bytes)

def LoggedValue.debug (printable : Char → Bool) : LoggedValue → List Char
  | .text chars => '"' :: debugText printable chars ++ ['"']
  | .octets bytes => '[' :: debugOctets bytes ++ [']']

-- Without the word and the braces around it.
def LoggedHeader.debug (printable : Char → Bool) (h : LoggedHeader) : List Char :=
  "name: ".toList ++ '"' :: debugText printable h.name ++ '"' :: ", value: ".toList ++ h.value.debug printable

def LoggedHeader.raw (printable : Char → Bool) (h : LoggedHeader) : List Char × RawValue :=
  (debugText printable h.name, h.value.raw printable)

theorem digitChar_range {n : Nat} (hn : n < 16) :
    48 ≤ n.digitChar.toNat ∧ n.digitChar.toNat ≤ 57 ∨ 97 ≤ n.digitChar.toNat ∧ n.digitChar.toNat ≤ 102 := by
  have hall : ∀ n < 16, 48 ≤ n.digitChar.toNat ∧ n.digitChar.toNat ≤ 57 ∨
      97 ≤ n.digitChar.toNat ∧ n.digitChar.toNat ≤ 102 := by decide
  exact hall n hn

-- A character of a number in the log.
theorem toDigits_range {base n : Nat} (hbase : 1 < base) (hle : base ≤ 16) {c : Char}
    (hc : c ∈ Nat.toDigits base n) : 48 ≤ c.toNat ∧ c.toNat ≤ 57 ∨ 97 ≤ c.toNat ∧ c.toNat ≤ 102 := by
  induction n using Nat.strong_induction_on generalizing c with
  | _ n ih =>
      by_cases hn : n < base
      · rw [Nat.toDigits_of_lt_base hn] at hc
        obtain rfl := List.mem_singleton.mp hc
        exact digitChar_range (by omega)
      · rw [Nat.toDigits_of_base_le hbase (by omega)] at hc
        rcases List.mem_append.mp hc with hc | hc
        · exact ih (n / base) (Nat.div_lt_self (by omega) hbase) hc
        · obtain rfl := List.mem_singleton.mp hc
          exact digitChar_range (Nat.lt_of_lt_of_le (Nat.mod_lt _ (by omega)) hle)

theorem ne_of_toNat {c d : Char} (h : c.toNat ≠ d.toNat) : c ≠ d := fun heq => h (by rw [heq])

theorem scanQuoted_plain {word : List Char} (h : ∀ c ∈ word, c ≠ '"' ∧ c ≠ '\\') (rest : List Char) :
    scanQuoted (word ++ rest) = (scanQuoted rest).map fun (inner, rest) => (word ++ inner, rest) := by
  induction word with
  | nil => simp
  | cons c word ih =>
      rw [List.forall_mem_cons] at h
      conv_lhs => rw [List.cons_append]; unfold scanQuoted
      rw [if_neg h.1.1, if_neg h.1.2, ih h.2, Option.map_map]
      rfl

theorem scanQuoted_escape {c : Char} (hc : c ≠ '\n') (rest : List Char) :
    scanQuoted ('\\' :: c :: rest) =
      (scanQuoted rest).map fun (inner, rest) => ('\\' :: c :: inner, rest) := by
  conv_lhs => unfold scanQuoted
  rw [if_neg (by decide), if_pos rfl]
  exact if_neg hc

theorem scanQuoted_debugChar (c : Char) (rest : List Char) :
    scanQuoted (debugChar printable c ++ rest) =
      (scanQuoted rest).map fun (inner, rest) => (debugChar printable c ++ inner, rest) := by
  by_cases hcoded : coded printable c = true
  · rw [debugChar_coded hcoded]
    have hword : ∀ d ∈ '\x7b' :: Nat.toDigits 16 c.toNat ++ ['\x7d'], d ≠ '"' ∧ d ≠ '\\' := by
      intro d hd
      rw [List.cons_append, List.mem_cons, List.mem_append, List.mem_singleton] at hd
      rcases hd with rfl | hd | rfl
      · decide
      · have hrange := toDigits_range (by decide) (Nat.le_refl 16) hd
        refine ⟨ne_of_toNat ?_, ne_of_toNat ?_⟩
        · show d.toNat ≠ 34
          omega
        · show d.toNat ≠ 92
          omega
      · decide
    show scanQuoted ('\\' :: 'u' :: (('\x7b' :: Nat.toDigits 16 c.toNat ++ ['\x7d']) ++ rest)) = _
    rw [scanQuoted_escape (by decide), scanQuoted_plain hword, Option.map_map]
    rfl
  · rcases debugChar_cases (Bool.eq_false_iff.mpr hcoded) with
      ⟨_, he⟩ | ⟨e, _, he, _, _, hone⟩ | ⟨he, hquote, hslash, _, _⟩
    · rw [he]
      exact scanQuoted_escape (by decide) rest
    · rw [he]
      refine scanQuoted_escape ?_ rest
      rintro rfl
      cases hone (fun _ => none) []
    · rw [he]
      refine scanQuoted_plain ?_ rest
      rw [List.forall_mem_singleton]
      exact ⟨hquote, hslash⟩

theorem scanQuoted_debugText (text rest : List Char) :
    scanQuoted (debugText printable text ++ '"' :: rest) = some (debugText printable text, rest) := by
  induction text with
  | nil =>
      rw [debugText_nil, List.nil_append]
      unfold scanQuoted
      exact if_pos rfl
  | cons c text ih =>
      rw [debugText_cons, List.append_assoc, scanQuoted_debugChar, ih, Option.map_some]

theorem scanList_plain {word : List Char} (h : ']' ∉ word) (rest : List Char) :
    scanList (word ++ ']' :: rest) = some (word, rest) := by
  induction word with
  | nil => rfl
  | cons c word ih =>
      rw [List.mem_cons, not_or] at h
      rw [List.cons_append, scanList, if_neg (Ne.symm h.1), ih h.2, Option.map_some]

theorem literal_append (word rest : List Char) : literal word (word ++ rest) = some rest := by
  rw [literal, if_pos (List.prefix_append word rest), List.drop_left]

theorem debugOctets_not_mem (bytes : Bytes) : ']' ∉ debugOctets bytes := by
  have hdigits : ∀ n, ']' ∉ Nat.toDigits 10 n := by
    intro n hmem
    have hrange := toDigits_range (by decide) (by decide) hmem
    exact absurd hrange (by decide)
  have hmore : ∀ bytes : Bytes, ']' ∉ moreOctets bytes := by
    intro bytes
    induction bytes with
    | nil => simp [moreOctets]
    | cons b bytes ih => simp [moreOctets, hdigits, ih]
  cases bytes with
  | nil => simp [debugOctets]
  | cons b bytes => simp [debugOctets, hdigits, hmore]

theorem scanValue_debug (value : LoggedValue) (rest : List Char) :
    scanValue (value.debug printable ++ rest) = some (value.raw printable, rest) := by
  cases value with
  | text chars =>
      show (scanQuoted ((debugText printable chars ++ ['"']) ++ rest)).map _ = _
      rw [List.append_assoc, List.cons_append, List.nil_append, scanQuoted_debugText, Option.map_some]
      rfl
  | octets bytes =>
      show (scanList ((debugOctets bytes ++ [']']) ++ rest)).map _ = _
      rw [List.append_assoc, List.cons_append, List.nil_append, scanList_plain (debugOctets_not_mem bytes),
        Option.map_some]
      rfl

-- One blank in front of what is none.
theorem dropWhile_blank {c : Char} (hc : PyText.isSpace c = false) (rest : List Char) :
    (' ' :: c :: rest).dropWhile PyText.isSpace = c :: rest ∧
      (c :: rest).dropWhile PyText.isSpace = c :: rest := by
  have hspace : PyText.isSpace ' ' = true := by decide
  have hstop : (c :: rest).dropWhile PyText.isSpace = c :: rest :=
    List.dropWhile_cons_of_neg (by rw [hc]; exact Bool.false_ne_true)
  rw [List.dropWhile_cons_of_pos hspace]
  exact ⟨hstop, hstop⟩

theorem dropWhile_value (value : LoggedValue) (rest : List Char) :
    (' ' :: (value.debug printable ++ rest)).dropWhile PyText.isSpace = value.debug printable ++ rest := by
  cases value with
  | text chars => exact (dropWhile_blank (by decide) _).1
  | octets bytes => exact (dropWhile_blank (by decide) _).1

theorem debug_append (h : LoggedHeader) (rest : List Char) :
    h.debug printable ++ rest = "name:".toList ++ (' ' :: '"' :: (debugText printable h.name ++ '"' ::
      (", value: ".toList ++ (h.value.debug printable ++ rest)))) := by
  unfold LoggedHeader.debug
  simp

-- The pattern matches a header as it is printed.
theorem matchHeader_debug (h : LoggedHeader) (rest : List Char) :
    matchHeader (h.debug printable ++ rest) = some (h.raw printable, rest) := by
  have hquote : ∀ quoted, literal ['"'] ((' ' :: '"' :: quoted).dropWhile PyText.isSpace) = some quoted := by
    intro quoted
    rw [(dropWhile_blank (by decide) quoted).1]
    exact literal_append ['"'] quoted
  have hcomma : ∀ value, literal [','] ((", value: ".toList ++ value).dropWhile PyText.isSpace) =
      some (" value: ".toList ++ value) := by
    intro value
    have hword : ", value: ".toList ++ value = ',' :: (" value: ".toList ++ value) := by simp
    rw [hword, (dropWhile_blank (by decide) _).2]
    exact literal_append [','] _
  have hvalue : ∀ value, literal "value:".toList ((" value: ".toList ++ value).dropWhile PyText.isSpace) =
      some (' ' :: value) := by
    intro value
    have hword : " value: ".toList ++ value = ' ' :: 'v' :: ("alue: ".toList ++ value) := by simp
    have hback : 'v' :: ("alue: ".toList ++ value) = "value:".toList ++ (' ' :: value) := by simp
    rw [hword, (dropWhile_blank (by decide) _).1, hback, literal_append]
  unfold matchHeader
  rw [debug_append, literal_append, Option.bind_eq_bind, Option.bind_some, hquote, Option.bind_some,
    scanQuoted_debugText, Option.bind_eq_bind, Option.bind_some]
  dsimp only
  rw [hcomma, Option.bind_some, hvalue, Option.bind_some, dropWhile_value, scanValue_debug]
  rfl

-- Where a header may begin: its text, or nothing more.
def HeaderNext (text : List Char) : Prop := ∀ c rest, text = c :: rest → c = 'n'

theorem headerNext_debug (h : LoggedHeader) (rest : List Char) : HeaderNext (h.debug printable ++ rest) := by
  intro c tail heq
  rw [debug_append] at heq
  exact (List.cons.inj heq).1.symm

-- The pattern does not match from a place in front of it, if there are no quotes.
theorem matchHeader_gap {gap text : List Char} (hne : gap ≠ []) (hgap : '"' ∉ gap) (htext : HeaderNext text) :
    matchHeader (gap ++ text) = none := by
  have hquote : ∀ rest : List Char, '"' ∉ rest →
      literal ['"'] ((rest ++ text).dropWhile PyText.isSpace) = none := by
    intro rest hrest
    have hhead : ∀ c tail, (rest ++ text).dropWhile PyText.isSpace = c :: tail → c ≠ '"' := by
      intro c tail heq
      induction rest with
      | nil =>
          rw [List.nil_append] at heq
          cases text with
          | nil => cases heq
          | cons d text =>
              obtain rfl := htext d text rfl
              rw [(dropWhile_blank (by decide) text).2] at heq
              rw [← (List.cons.inj heq).1]
              decide
      | cons d rest ih =>
          rw [List.mem_cons, not_or] at hrest
          rw [List.cons_append] at heq
          by_cases hd : PyText.isSpace d = true
          · rw [List.dropWhile_cons_of_pos hd] at heq
            exact ih hrest.2 heq
          · rw [List.dropWhile_cons_of_neg hd] at heq
            rw [← (List.cons.inj heq).1]
            exact Ne.symm hrest.1
    unfold literal
    rw [if_neg]
    rintro ⟨tail, htail⟩
    exact hhead '"' tail htail.symm rfl
  unfold matchHeader
  cases hname : literal "name:".toList (gap ++ text) with
  | none => rfl
  | some rest =>
      have hsplit : gap ++ text = "name:".toList ++ rest := by
        unfold literal at hname
        obtain ⟨⟨tail, htail⟩, hrest⟩ := Option.ite_none_right_eq_some.mp hname
        rw [← htail, List.drop_left] at hrest
        rw [← htail, Option.some.inj hrest]
      rw [Option.bind_eq_bind, Option.bind_some]
      rcases List.append_eq_append_iff.mp hsplit with ⟨mid, hword, htail⟩ | ⟨mid, hword, htail⟩
      · cases mid with
        | nil =>
            rw [List.nil_append] at htail
            have hnone := hquote [] (by simp)
            rw [List.nil_append, htail] at hnone
            rw [hnone]
            rfl
        | cons c mid =>
            -- the name would go on into the text, which does not begin like that
            obtain rfl := htext c (mid ++ rest) htail
            cases gap with
            | nil => exact absurd rfl hne
            | cons d gap =>
                have hmem : 'n' ∈ "ame:".toList := by
                  have htail : "ame:".toList = gap ++ 'n' :: mid := (List.cons.inj hword).2
                  rw [htail]
                  simp
                exact absurd hmem (by decide)
      · have hmid : '"' ∉ mid := fun hm => hgap (hword ▸ List.mem_append_right _ hm)
        rw [htail, hquote mid hmid]
        rfl

theorem findAll_gap {gap text : List Char} (hgap : '"' ∉ gap) (htext : HeaderNext text) (fuel : Nat) :
    findAll (gap.length + fuel) (gap ++ text) = findAll fuel text := by
  induction gap with
  | nil => simp
  | cons c gap ih =>
      have hnone := matchHeader_gap (List.cons_ne_nil c gap) hgap htext
      rw [List.mem_cons, not_or] at hgap
      have hlen : (c :: gap).length + fuel = (gap.length + fuel) + 1 := by
        rw [List.length_cons]
        omega
      rw [List.cons_append] at hnone ⊢
      rw [hlen, findAll, hnone, ih hgap.2]

-- What follows a header to the end of its line.
def moreHeaders (printable : Char → Bool) : List LoggedHeader → List Char
  | [] => " \x7d]".toList
  | h :: headers => " \x7d, Header \x7b ".toList ++ (h.debug printable ++ moreHeaders printable headers)

theorem findAll_debug (h : LoggedHeader) (rest : List Char) {fuel : Nat}
    (hfuel : (h.debug printable ++ rest).length ≤ fuel) :
    ∃ fuel', rest.length ≤ fuel' ∧
      findAll fuel (h.debug printable ++ rest) = h.raw printable :: findAll fuel' rest := by
  have hmatch := @matchHeader_debug printable h rest
  have hlen : rest.length < (h.debug printable ++ rest).length := by
    rw [debug_append]
    simp only [List.length_append, List.length_cons]
    omega
  cases htext : h.debug printable ++ rest with
  | nil =>
      rw [htext] at hlen
      cases hlen
  | cons c text =>
      rw [htext] at hmatch hfuel hlen
      obtain ⟨fuel, rfl⟩ : ∃ n, fuel = n + 1 := ⟨fuel - 1, by omega⟩
      exact ⟨fuel, by omega, by rw [findAll, hmatch]⟩

theorem findAll_end {fuel : Nat} {text : List Char} (h : '"' ∉ text) (hfuel : text.length ≤ fuel) :
    findAll fuel text = [] := by
  have hgap := @findAll_gap text [] h (fun c rest heq => nomatch heq) (fuel - text.length)
  have hend : findAll (fuel - text.length) [] = [] := by cases fuel - text.length <;> rfl
  rw [List.append_nil, Nat.add_sub_of_le hfuel, hend] at hgap
  exact hgap

theorem findAll_more (headers : List LoggedHeader) {fuel : Nat}
    (hfuel : (moreHeaders printable headers).length ≤ fuel) :
    findAll fuel (moreHeaders printable headers) = headers.map (LoggedHeader.raw printable) := by
  induction headers generalizing fuel with
  | nil =>
      have hquote : '"' ∉ " \x7d]".toList := by decide
      exact findAll_end hquote hfuel
  | cons h headers ih =>
      unfold moreHeaders at hfuel ⊢
      rw [List.length_append] at hfuel
      obtain ⟨fuel, rfl⟩ : ∃ n, fuel = " \x7d, Header \x7b ".toList.length + n :=
        ⟨fuel - " \x7d, Header \x7b ".toList.length, by omega⟩
      obtain ⟨fuel', hfuel', heq⟩ := findAll_debug h (moreHeaders printable headers)
        (Nat.le_of_add_le_add_left hfuel)
      rw [findAll_gap (by decide) (headerNext_debug h _), heq, ih hfuel', List.map_cons]

theorem toDigits_isDigit {n : Nat} {c : Char} (hc : c ∈ Nat.toDigits 10 n) : PyText.isDigit 10 c = true :=
  (PyText.isDigit_toDigits hc).1

theorem intOfStr_toDigits {n : Nat} (hn : n < 10 ^ PyText.maxStrDigits) :
    PyText.intOfStr 10 (Nat.toDigits 10 n) = some (n : Int) ∧
      PyText.intOfStr 10 (' ' :: Nat.toDigits 10 n) = some (n : Int) := by
  have hascii : (Nat.toDigits 10 n).map PyText.toAscii = Nat.toDigits 10 n :=
    PyText.map_toAscii_digits fun c hc => toDigits_isDigit hc
  have hint := PyText.intLiteral_toDigits hn
  refine ⟨by rw [PyText.intOfStr, hascii, hint], ?_⟩
  have hblank : PyText.toAscii ' ' = ' ' := by decide
  rw [PyText.intOfStr, List.map_cons, hascii, hblank, PyText.intLiteral,
    List.dropWhile_cons_of_pos (by decide : PyText.isAsciiSpace ' ' = true)]
  exact hint

-- Digits are left when blanks are stripped.
theorem strip_ne_nil {text : List Char} {c : Char} (hc : c ∈ text) (hblank : PyText.isSpace c = false) :
    PyText.strip PyText.isSpace text ≠ [] := by
  intro hnil
  have hcount := PyText.count_strip PyText.isSpace text c hblank
  rw [hnil] at hcount
  have hpos := List.count_pos_iff.mpr hc
  rw [← hcount] at hpos
  exact Nat.lt_irrefl 0 hpos

theorem digit_not_blank {n : Nat} {c : Char} (hc : c ∈ Nat.toDigits 10 n) : PyText.isSpace c = false := by
  have hrange := toDigits_range (by decide) (by decide) hc
  unfold PyText.isSpace
  simp only [Bool.or_eq_false_iff, Bool.and_eq_false_iff, decide_eq_false_iff_not]
  omega

theorem splitOn_moreOctets {word : List Char} (hword : ',' ∉ word) (bytes : Bytes) :
    (word ++ moreOctets bytes).splitOn ',' = word :: bytes.map fun b => ' ' :: Nat.toDigits 10 b.toNat := by
  induction bytes generalizing word with
  | nil =>
      rw [moreOctets, List.append_nil]
      exact List.splitOn_eq_singleton hword
  | cons b bytes ih =>
      have hdigits : ',' ∉ ' ' :: Nat.toDigits 10 b.toNat := by
        intro hmem
        rcases List.mem_cons.mp hmem with hc | hc
        · cases hc
        · exact absurd (toDigits_range (by decide) (by decide) hc) (by decide)
      show (word ++ ',' :: ((' ' :: Nat.toDigits 10 b.toNat) ++ moreOctets bytes)).splitOn ',' = _
      rw [List.splitOn_append_cons_self_of_not_mem hword, ih hdigits, List.map_cons]

theorem octetOf_toDigits (b : UInt8) :
    octetOf (Nat.toDigits 10 b.toNat) = some b ∧ octetOf (' ' :: Nat.toDigits 10 b.toNat) = some b := by
  have hlt := b.toNat_lt
  have hfits : 10 ^ 3 ≤ 10 ^ PyText.maxStrDigits := Nat.pow_le_pow_right (by decide) (by decide)
  obtain ⟨hplain, hblank⟩ := @intOfStr_toDigits b.toNat (by omega)
  have hoctet : (if 0 ≤ (b.toNat : Int) ∧ (b.toNat : Int) < 256 then some (UInt8.ofNat (b.toNat : Int).toNat)
      else none) = some b := by
    rw [if_pos ⟨by omega, by omega⟩, Int.toNat_natCast, UInt8.ofNat_toNat]
  exact ⟨by rw [octetOf, hplain, Option.bind_some, hoctet], by rw [octetOf, hblank, Option.bind_some, hoctet]⟩

-- The octets that a list of numbers stands for.
theorem octetList_debug (bytes : Bytes) : octetList (debugOctets bytes) = some bytes := by
  cases bytes with
  | nil => decide
  | cons b bytes =>
      have hcomma : ',' ∉ Nat.toDigits 10 b.toNat := fun hmem =>
        absurd (toDigits_range (by decide) (by decide) hmem) (by decide)
      have hkeep : ∀ n : Nat, PyText.strip PyText.isSpace (Nat.toDigits 10 n) ≠ [] ∧
          PyText.strip PyText.isSpace (' ' :: Nat.toDigits 10 n) ≠ [] := by
        intro n
        obtain ⟨c, hc⟩ := List.exists_mem_of_ne_nil _ (Nat.toDigits_ne_nil : Nat.toDigits 10 n ≠ [])
        exact ⟨strip_ne_nil hc (digit_not_blank hc),
          strip_ne_nil (List.mem_cons_of_mem _ hc) (digit_not_blank hc)⟩
      have hmore : ∀ bytes : Bytes,
          (bytes.map fun b => ' ' :: Nat.toDigits 10 b.toNat).mapM octetOf = some bytes := by
        intro bytes
        induction bytes with
        | nil => rfl
        | cons b bytes ih =>
            rw [List.map_cons, List.mapM_cons, (octetOf_toDigits b).2, ih]
            rfl
      unfold octetList debugOctets
      rw [splitOn_moreOctets hcomma, List.filter_eq_self.mpr]
      · rw [List.mapM_cons, (octetOf_toDigits b).1, hmore]
        rfl
      · intro x hx
        rw [decide_eq_true_eq]
        rcases List.mem_cons.mp hx with rfl | hx
        · exact (hkeep _).1
        · obtain ⟨b', _, rfl⟩ := List.mem_map.mp hx
          exact (hkeep _).2

end NeverFox.H3
