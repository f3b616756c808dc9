import NeverFox.Harness.Fields

namespace NeverFox.Harness

open H2 (packU16)
open Masking

-- A value of the reference or of a capture, as JSON has it. `none` is Python's.
inductive Value
  | text (s : String)
  | number (n : Nat)
  | numbers (ns : List Nat)
  | texts (ss : List String)
  deriving DecidableEq

abbrev Values := List (String × Option Value)

-- `dict.get`
def Values.get (values : Values) (field : String) : Option Value := (values.lookup field).join

def FIELDS : List String :=
  ["ja3", "ja3_nogrease", "ja4", "legacy_version", "session_id_len", "cipher_suites", "extensions",
    "supported_groups", "key_share_groups", "signature_algorithms", "supported_versions", "ec_point_formats",
    "alpn", "psk_key_exchange_modes", "record_size_limit", "cert_compression_algs", "ech_len"]

-- `got` of native/verify.py
def got (rp : Parsed) (prints : Fingerprints) : Values :=
  let d := rp.details
  [("ja3", some (.text prints.ja3)), ("ja3_nogrease", some (.text prints.ja3Nogrease)),
    ("ja4", some (.text prints.ja4)), ("legacy_version", some (.number rp.legacyVersion)),
    ("session_id_len", some (.number rp.offsets.sessionId.2)),
    ("cipher_suites", some (.numbers rp.cipherSuites)), ("extensions", some (.numbers rp.extensions)),
    ("supported_groups", d.supportedGroups.map .numbers), ("key_share_groups", d.keyShareGroups.map .numbers),
    ("signature_algorithms", d.signatureAlgorithms.map .numbers),
    ("supported_versions", d.supportedVersions.map .numbers),
    ("ec_point_formats", d.ecPointFormats.map .numbers), ("alpn", d.alpn.map .texts),
    ("psk_key_exchange_modes", d.pskKeyExchangeModes.map .numbers),
    ("record_size_limit", d.recordSizeLimit.map .number),
    ("cert_compression_algs", d.certCompressionAlgs.map .numbers),
    ("ech_len", rp.offsets.ech.head?.map fun spot => .number spot.2)]

-- REF: the values of the reference, and its normalized_hex.
structure Reference where
  values : Values
  normalizedHex : List Char

-- `main` of native/verify.py behind the capture: does it exit with 0?
def verify (digests : Digests) (ref : Reference) (rawHex : List Char) : Except Exn Bool :=
  match fromHex rawHex with
  | none => .error .valueError
  | some hs => do
      let (rp, prints) ← parseClientHello digests hs
      let fields := FIELDS.all fun f => decide (ref.values.get f = (got rp prints).get f)
      let b ← normalizedHex rp
      return fields && decide (ref.normalizedHex = b)

-- The reference that a message makes when it is captured itself.
def Reference.of (digests : Digests) (hs : Bytes) : Except Exn Reference := do
  let (rp, prints) ← parseClientHello digests hs
  let b ← Harness.normalizedHex rp
  return { values := got rp prints, normalizedHex := b }

-- What is free in a message does not show in what the gate looks at.
theorem record_blanked (item : Item) : ∃ item' : Item, item'.extension = item.extension.blanked ∧
    ∀ d, item'.record d = item.record d := by
  cases item with
  | keyShare shares =>
      refine ⟨.keyShare (shares.map KeyShare.blanked), rfl, ?_⟩
      intro d
      show { d with
        keyShareGroups := some (d.keyShareGroups.getD [] ++
          (shares.map KeyShare.blanked).map fun share : KeyShare => share.group.toNat) } = _
      rw [List.map_map]
      rfl
  | encryptedClientHello payload =>
      exact ⟨.encryptedClientHello (List.replicate payload.length 0), rfl, fun _ => rfl⟩
  | serverName body => exact ⟨.serverName body, rfl, fun _ => rfl⟩
  | supportedGroups groups hfits => exact ⟨.supportedGroups groups hfits, rfl, fun _ => rfl⟩
  | ecPointFormats formats hfits => exact ⟨.ecPointFormats formats hfits, rfl, fun _ => rfl⟩
  | signatureAlgorithms schemes hfits => exact ⟨.signatureAlgorithms schemes hfits, rfl, fun _ => rfl⟩
  | alpn names hnames => exact ⟨.alpn names hnames, rfl, fun _ => rfl⟩
  | compressCertificate algs hfits => exact ⟨.compressCertificate algs hfits, rfl, fun _ => rfl⟩
  | recordSizeLimit limit => exact ⟨.recordSizeLimit limit, rfl, fun _ => rfl⟩
  | supportedVersions versions hfits => exact ⟨.supportedVersions versions hfits, rfl, fun _ => rfl⟩
  | pskKeyExchangeModes modes hfits => exact ⟨.pskKeyExchangeModes modes hfits, rfl, fun _ => rfl⟩
  | other type body htype => exact ⟨.other type body htype, rfl, fun _ => rfl⟩

theorem records_blanked (items : List Item) : ∃ items' : List Item,
    items'.map Item.extension = (items.map Item.extension).map Extension.blanked ∧
      ∀ d, items'.foldl Item.record d = items.foldl Item.record d := by
  induction items with
  | nil => exact ⟨[], rfl, fun _ => rfl⟩
  | cons item items ih =>
      obtain ⟨item', hext, hrecord⟩ := record_blanked item
      obtain ⟨items', hexts, hrecords⟩ := ih
      refine ⟨item' :: items', ?_, ?_⟩
      · rw [List.map_cons, List.map_cons, List.map_cons, hext, hexts]
      · intro d
        rw [List.foldl_cons, List.foldl_cons, hrecord, hrecords]

theorem spots_blanked (start : Nat) (fields : List Octets) :
    spots start (fields.map (Piece.blanked 0)) = spots start fields := by
  induction fields generalizing start with
  | nil => rfl
  | cons field fields ih =>
      obtain ⟨free, octets⟩ := field
      cases free with
      | true => rw [List.map_cons, blanked_free, spots_free, spots_free, List.length_replicate, ih]
      | false => rw [List.map_cons, blanked_fixed, spots_fixed, spots_fixed, ih]

theorem spotsOf_blanked (type o : Nat) (es : List Extension) :
    spotsOf type o (es.map Extension.blanked) = spotsOf type o es := by
  induction es generalizing o with
  | nil => rfl
  | cons e es ih =>
      rw [List.map_cons, spotsOf, spotsOf, e.blanked_type, e.blanked_fields, spots_blanked,
        flat_blanked_length, ih]

-- The message and its blanked one are parsed alike, but for the octets themselves.
theorem parsed_blanked {h : Hello} {items : List Item} (hitems : h.extensions = items.map Item.extension) :
    ∃ items' : List Item, h.blanked.extensions = items'.map Item.extension ∧
      h.blanked.parsed items' = { h.parsed items with rawHex := hex h.blanked.encode } := by
  obtain ⟨items', hexts, hrecords⟩ := records_blanked items
  have hext : h.blanked.extensions = items'.map Item.extension := by
    rw [hexts, ← hitems]
    rfl
  refine ⟨items', hext, ?_⟩
  have hstart : h.blanked.start = h.start := by
    unfold Hello.start Hello.suites Hello.blanked
    rw [List.length_replicate]
  have htypes : h.blanked.extensions.map Extension.type = h.extensions.map Extension.type := by
    show (h.extensions.map Extension.blanked).map Extension.type = _
    rw [List.map_map]
    exact List.map_congr_left fun e _ => e.blanked_type
  have hspots : ∀ type, spotsOf type h.blanked.start h.blanked.extensions =
      spotsOf type h.start h.extensions := by
    intro type
    rw [hstart]
    exact spotsOf_blanked type h.start h.extensions
  have hsid : h.blanked.sessionId.length = h.sessionId.length := List.length_replicate
  unfold Hello.parsed
  rw [hrecords, htypes, hspots, hspots, hsid]
  rfl

theorem fingerprints_raw (digests : Digests) (p : Parsed) (rawHex : List Char) :
    fingerprints digests { p with rawHex := rawHex } = fingerprints digests p := rfl

theorem got_raw (p : Parsed) (rawHex : List Char) (prints : Fingerprints) :
    got { p with rawHex := rawHex } prints = got p prints := rfl

-- The parser, whatever is free in the message.
theorem parse_blanked {digests : Digests} {h : Hello} {p : Parsed} {prints : Fingerprints}
    (hp : parseClientHello digests h.encode = .ok (p, prints)) :
    parseClientHello digests h.blanked.encode = .ok ({ p with rawHex := hex h.blanked.encode }, prints) := by
  obtain ⟨items, hitems⟩ := exists_items h.extensions
  obtain ⟨items', hitems', hblanked⟩ := parsed_blanked hitems
  obtain ⟨prints₁, hprints₁, hparse₁⟩ := parse_items digests hitems
  obtain ⟨prints₂, hprints₂, hparse₂⟩ := parse_items digests hitems'
  rw [hparse₁] at hp
  obtain ⟨rfl, rfl⟩ := Prod.mk.inj (Except.ok.inj hp)
  rw [hblanked, fingerprints_raw, hprints₁] at hprints₂
  rw [hparse₂, hblanked, Except.ok.inj hprints₂]

-- What the gate sees of a message.
theorem seen_of_blanked {digests : Digests} {a b : Hello} {p q : Parsed} {prints prints' : Fingerprints}
    (ha : parseClientHello digests a.encode = .ok (p, prints))
    (hb : parseClientHello digests b.encode = .ok (q, prints'))
    (hsame : a.blanked.encode = b.blanked.encode) : got p prints = got q prints' := by
  have ha' := parse_blanked ha
  have hb' := parse_blanked hb
  rw [hsame, hb'] at ha'
  obtain ⟨hpq, hprints⟩ := Prod.mk.inj (Except.ok.inj ha')
  rw [← got_raw p (hex b.blanked.encode), ← hpq, got_raw, hprints]

theorem encode_blanked (h : Hello) : h.blanked.encode = (pattern h.fields).map (·.getD 0) := by
  unfold Hello.encode
  rw [h.blanked_fields, flat_blanked]

theorem normalized_of_parse {digests : Digests} {h : Hello} {p : Parsed} {prints : Fingerprints}
    (hp : parseClientHello digests h.encode = .ok (p, prints)) :
    normalizedHex p = .ok (hex h.blanked.encode) := by
  have hnormal := normalized_encode digests h
  unfold normalized at hnormal
  rw [hp] at hnormal
  rw [encode_blanked]
  exact hnormal

-- Blanked alike, messages are the same outside their free fields.
theorem blanked_eq_iff (a b : Hello) : a.blanked.encode = b.blanked.encode ↔ SameOutside a b := by
  refine Iff.trans ?_ (agrees_iff a.fields b.fields)
  rw [encode_blanked, encode_blanked]
  constructor
  · exact agrees_of_blanked
  · intro h
    rw [pattern_eq_of_agrees h]

-- Against the reference of any hello the gate passes just the messages that differ
-- from it in free fields alone: none of the field checks stops one of these.
theorem gate_passes_iff (digests : Digests) (r h : Hello) : ∃ ref verdict,
    Reference.of digests r.encode = .ok ref ∧ verify digests ref (hex h.encode) = .ok verdict ∧
      (verdict = true ↔ SameOutside r h) := by
  obtain ⟨p, prints, hr, _⟩ := parse_hello digests r
  obtain ⟨q, prints', hh, _⟩ := parse_hello digests h
  refine ⟨⟨got p prints, hex r.blanked.encode⟩,
    (FIELDS.all fun f => decide ((got p prints).get f = (got q prints').get f)) &&
      decide (hex r.blanked.encode = hex h.blanked.encode), ?_, ?_, ?_⟩
  · unfold Reference.of
    rw [hr]
    dsimp only [bind, Except.bind]
    rw [normalized_of_parse hr]
    rfl
  · unfold verify
    rw [fromHex_hex]
    dsimp only [bind, Except.bind]
    rw [hh]
    dsimp only
    rw [normalized_of_parse hh]
    rfl
  · rw [Bool.and_eq_true, decide_eq_true_eq, hex_inj, blanked_eq_iff]
    constructor
    · exact And.right
    · intro hsame
      refine ⟨?_, hsame⟩
      rw [seen_of_blanked hr hh ((blanked_eq_iff r h).mpr hsame), List.all_eq_true]
      intro f _
      exact decide_eq_true rfl

end NeverFox.Harness
