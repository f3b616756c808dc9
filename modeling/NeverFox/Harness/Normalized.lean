import NeverFox.Harness.ReadHello

namespace NeverFox.Harness

open H2 (packU16 packU32)
open Masking

theorem fingerprints_total (digests : Digests) {p : Parsed} (h : p.details.Named) :
    ∃ prints, fingerprints digests p = .ok prints := by
  have hmark : ∃ mark, alpnMark (p.details.alpn.getD []) = .ok mark := by
    cases halpn : p.details.alpn with
    | none => exact ⟨"00", rfl⟩
    | some names =>
        cases names with
        | nil => exact ⟨"00", rfl⟩
        | cons name names =>
            have hne : name.toList ≠ [] := fun heq =>
              h _ halpn name List.mem_cons_self (String.toList_eq_nil_iff.mp heq)
            rw [Option.getD_some, alpnMark]
            cases hlist : name.toList with
            | nil => exact absurd hlist hne
            | cons c rest => exact ⟨_, rfl⟩
  obtain ⟨mark, hmark⟩ := hmark
  unfold fingerprints
  dsimp only
  rw [hmark]
  exact ⟨_, rfl⟩

-- Behind the handshake header the fields stand one after the other.
theorem encode_drop (h : Hello) : h.encode.drop 4 = packU16 h.legacyVersion.toNat ++ (h.random ++
    ([UInt8.ofNat h.sessionId.length] ++ (h.sessionId ++ (packU16 h.suites.length ++ (h.suites ++
      ([UInt8.ofNat h.compression.length] ++ (h.compression ++ (packU16 (flat h.tail).length ++
        (flat h.tail ++ []))))))))) := by
  have hcontent : h.encode.drop 4 = flat h.content := rfl
  rw [hcontent, Hello.content, List.append_nil]
  simp only [flat_cons, List.cons_append, List.nil_append]

theorem hello_length (h : Hello) : h.encode.length = 44 + h.sessionId.length + h.suites.length +
    h.compression.length + (flat h.tail).length := by
  have hdrop := congrArg List.length (encode_drop h)
  have hrandom := h.randomLength
  have hhead : 4 ≤ h.encode.length := Nat.le_add_left 4 _
  simp only [List.length_drop, List.length_append, length_packU16, List.length_singleton,
    List.length_nil] at hdrop
  omega

theorem spots_hello (h : Hello) : spots 0 h.fields = (6, 32) :: (39, h.sessionId.length) ::
    spots (44 + h.sessionId.length + h.suites.length + h.compression.length) h.tail := by
  have hhead : (1 :: (packU32 (flat h.content).length).drop 1 : Bytes).length = 4 := rfl
  have hplace : 39 + h.sessionId.length + 2 + h.suites.length + 1 + h.compression.length + 2 =
      44 + h.sessionId.length + h.suites.length + h.compression.length := by omega
  have hcontent : spots 4 h.content = (6, h.random.length) :: (6 + h.random.length + 1, h.sessionId.length) ::
      spots (6 + h.random.length + 1 + h.sessionId.length + 2 + h.suites.length + 1 +
        h.compression.length + 2)
        h.tail := rfl
  unfold Hello.fields
  rw [spots_fixed, hhead, Nat.zero_add, hcontent, h.randomLength, hplace]

theorem extensions_length_le (es : List Extension) :
    es.length ≤ (flat (es.flatMap Extension.fields)).length := by
  rw [flat_flatMap]
  exact length_le_flatMap (fun e => by rw [e.fields_length]; omega) es

-- What is known of the message when its loops have ended.
def parsedFrom (h : Hello) (ciphers : List Nat) (scan : Scan) : Parsed where
  legacyVersion := h.legacyVersion.toNat
  cipherSuites := ciphers
  extensions := scan.exts
  details := scan.details
  offsets := ⟨(6, 32), (39, h.sessionId.length), scan.ksKeyOffsets, scan.echOffsets⟩
  rawHex := hex h.encode

-- The parser finds the free fields of every well-formed message.
theorem parse_hello (digests : Digests) (h : Hello) :
    ∃ p prints, parseClientHello digests h.encode = .ok (p, prints) ∧ p.rawHex = hex h.encode ∧
      ∀ spot, spot ∈ p.offsets.spots ↔ spot ∈ spots 0 h.fields := by
  have hfit := h.suitesFit
  rw [← Hello.suites_length] at hfit
  have hlen := hello_length h
  have hkind : octetAt h.encode 0 = .ok 1 := rfl
  have hversion := encode_drop h
  have hrandom := drop_step hversion
  have hsid := drop_step hrandom
  rw [h.randomLength] at hsid
  have hsession := drop_step hsid
  have hcount := drop_step hsession
  have hsuites := drop_step hcount
  have hcomp := drop_step hsuites
  have hcompression := drop_step hcomp
  have htotal := drop_step hcompression
  have htail := drop_step htotal
  obtain ⟨ciphers, hciphers⟩ := @words_total h.encode (39 + h.sessionId.length + 2) h.suites.length
    (by rw [Hello.suites_length]; omega) (by omega)
  obtain ⟨scan, hscan, hnamed, hspots⟩ := @readExtensions_eq h.encode [] _ (flat h.tail).length
      h.extensions {}
    (fun _ => h.body_fits) htail (fun _ hsome => by cases hsome) (extensions_length_le h.extensions)
  have hstop : readExtensions h.encode (39 + h.sessionId.length + 2 + h.suites.length + 1 +
        h.compression.length +
      2 + (flat h.tail).length) (flat h.tail).length (39 + h.sessionId.length + 2 + h.suites.length + 1 +
        h.compression.length + 2) {} = .ok scan := hscan
  have hfound : ∀ spot, spot ∈ scan.spots ↔ spot ∈ spots (39 + h.sessionId.length + 2 + h.suites.length + 1 +
      h.compression.length + 2) h.tail := fun spot => (hspots spot).trans (or_iff_right List.not_mem_nil)
  obtain ⟨prints, hprints⟩ := @fingerprints_total digests (parsedFrom h ciphers scan) hnamed
  have hsidLen : octetAt h.encode 38 = .ok h.sessionId.length := octetAt_ofNat h.sessionIdFits hsid
  have hcsLen : u16 h.encode (39 + h.sessionId.length) = .ok h.suites.length := u16_drop hfit hcount
  have hcompLen : octetAt h.encode (39 + h.sessionId.length + 2 + h.suites.length) =
      .ok h.compression.length :=
    octetAt_ofNat h.compressionFits hcomp
  have hextTotal : u16 h.encode (39 + h.sessionId.length + 2 + h.suites.length + 1 + h.compression.length) =
      .ok (flat h.tail).length := u16_drop h.extensionsFit htotal
  refine ⟨parsedFrom h ciphers scan, prints, ?_, rfl, ?_⟩
  · unfold parseClientHello
    simp only [hkind, u16_drop h.legacyVersion.toNat_lt hversion, hsidLen, hcsLen, hciphers,
      hcompLen, hextTotal,
      hstop, bind, Except.bind, pure, Except.pure, ne_eq, not_true_eq_false, ↓reduceIte]
    unfold parsedFrom at hprints ⊢
    rw [hprints]
  · intro spot
    have hplace : 39 + h.sessionId.length + 2 + h.suites.length + 1 + h.compression.length + 2 =
        44 + h.sessionId.length + h.suites.length + h.compression.length := by omega
    rw [spots_hello]
    show spot ∈ (6, 32) :: (39, h.sessionId.length) :: scan.spots ↔ _
    simp only [List.mem_cons, hfound spot]
    rw [hplace]

-- The digits of one octet are read back.
theorem digit_facts {n : Nat} (hn : n < 16) : PyText.isAsciiSpace n.digitChar = false ∧
    PyText.isDigit 16 n.digitChar = true ∧ PyText.digitValue n.digitChar = some n := by
  have hall : ((List.range 16).all fun n => !PyText.isAsciiSpace n.digitChar &&
      (PyText.isDigit 16 n.digitChar && PyText.digitValue n.digitChar == some n)) = true := by decide
  have h := List.all_eq_true.mp hall n (List.mem_range.mpr hn)
  rw [Bool.and_eq_true, Bool.and_eq_true, Bool.not_eq_true', beq_iff_eq] at h
  exact h

theorem fromHex_hex (data : Bytes) : fromHex (hex data) = some data := by
  induction data with
  | nil => rfl
  | cons b data ih =>
      have hb := b.toNat_lt
      obtain ⟨hspace, hhigh, hhighValue⟩ := @digit_facts (b.toNat / 16) (by omega)
      obtain ⟨_, hlow, hlowValue⟩ := @digit_facts (b.toNat % 16) (Nat.mod_lt _ (by decide))
      have hvalue : b.toNat / 16 * 16 + b.toNat % 16 = b.toNat := Nat.div_add_mod' b.toNat 16
      show fromHex ((b.toNat / 16).digitChar :: (b.toNat % 16).digitChar :: hex data) = _
      rw [fromHex, hspace, if_neg Bool.false_ne_true]
      rw [hhigh, hlow, hhighValue, hlowValue, ih]
      simp [hvalue]

theorem hex_inj {data data' : Bytes} : hex data = hex data' ↔ data = data' := by
  constructor
  · intro h
    have hback := congrArg fromHex h
    rw [fromHex_hex, fromHex_hex] at hback
    exact Option.some.inj hback
  · rintro rfl
    rfl

-- `normalized_hex(parse_client_hello(hs))`
def normalized (digests : Digests) (hs : Bytes) : Except Exn (List Char) := do
  let (parsed, _) ← parseClientHello digests hs
  normalizedHex parsed

-- The message without what is free in it.
theorem normalized_encode (digests : Digests) (h : Hello) :
    normalized digests h.encode = .ok (hex ((pattern h.fields).map (·.getD 0))) := by
  obtain ⟨p, prints, hparse, hraw, hspots⟩ := parse_hello digests h
  have hfit : ∀ spot ∈ p.offsets.spots, spot.1 + spot.2 ≤ h.encode.length := by
    intro spot hmem
    have hrange := (spots_range ((hspots spot).mp hmem)).2
    rwa [Nat.zero_add] at hrange
  have hblank : p.offsets.spots.foldl (blank 0) h.encode = (pattern h.fields).map (·.getD 0) := by
    rw [foldl_blank_congr hspots hfit]
    exact foldl_blank_spots 0 [] h.fields
  unfold normalized
  rw [hparse]
  dsimp only [bind, Except.bind]
  unfold normalizedHex
  rw [hraw, fromHex_hex]
  dsimp only
  rw [hblank]

-- The random, the session id, the key material of a share or the body of an ECH
-- extension has an octet there.
def Hello.Free (h : Hello) (i : Nat) : Prop := ∃ spot ∈ spots 0 h.fields, Covers spot i

def SameOutside (a b : Hello) : Prop :=
  a.encode.length = b.encode.length ∧ ∀ i, ¬a.Free i → ¬b.Free i → a.encode[i]? = b.encode[i]?

-- The gate tells two messages apart exactly if they differ outside the free fields.
-- Normalising keeps the length, and a second time it changes nothing.
theorem masked_exactly (digests : Digests) (a b : Hello) :
    ∃ text text' : Bytes, normalized digests a.encode = .ok (hex text) ∧
      normalized digests b.encode = .ok (hex text') ∧ (hex text = hex text' ↔ SameOutside a b) ∧
      text.length = a.encode.length ∧ normalized digests text = .ok (hex text) := by
  refine ⟨_, _, normalized_encode digests a, normalized_encode digests b, ?_, ?_, ?_⟩
  · refine Iff.trans ?_ (agrees_iff a.fields b.fields)
    rw [hex_inj]
    constructor
    · exact agrees_of_blanked
    · intro h
      rw [pattern_eq_of_agrees h]
  · rw [List.length_map, pattern_length]
    rfl
  · have hagain := normalized_encode digests a.blanked
    have hencode : a.blanked.encode = (pattern a.fields).map (·.getD 0) := by
      unfold Hello.encode
      rw [a.blanked_fields, flat_blanked]
    rwa [a.blanked_fields, pattern_blanked, hencode] at hagain

end NeverFox.Harness
