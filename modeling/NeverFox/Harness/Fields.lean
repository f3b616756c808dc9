import NeverFox.Harness.Normalized

namespace NeverFox.Harness

open H2 (packU16)
open Masking

def packWords (items : List UInt16) : Bytes := items.flatMap fun item => packU16 item.toNat

def packNames (names : List Bytes) : Bytes := names.flatMap fun name => UInt8.ofNat name.length :: name

-- The types of extensions that the parser looks into.
def knownTypes : List Nat :=
  [0x0000, 0x000a, 0x000b, 0x000d, 0x0010, 0x001b, 0x001c, 0x002b, 0x002d, 0x0033, 0xfe0d]

-- What an extension says, as far as it is read.
inductive Item
  | serverName (body : Bytes)
  | supportedGroups (groups : List UInt16) (hfits : 2 * groups.length < 2 ^ 16)
  | ecPointFormats (formats : Bytes) (hfits : formats.length < 2 ^ 8)
  | signatureAlgorithms (schemes : List UInt16) (hfits : 2 * schemes.length < 2 ^ 16)
  | alpn (names : List Bytes) (hnames : ∀ name ∈ names, name ≠ [] ∧ name.length < 2 ^ 8)
  | compressCertificate (algs : List UInt16) (hfits : 2 * algs.length < 2 ^ 8)
  | recordSizeLimit (limit : UInt16)
  | supportedVersions (versions : List UInt16) (hfits : 2 * versions.length < 2 ^ 8)
  | pskKeyExchangeModes (modes : Bytes) (hfits : modes.length < 2 ^ 8)
  | keyShare (shares : List KeyShare)
  | encryptedClientHello (payload : Bytes)
  | other (type : UInt16) (body : Bytes) (htype : type.toNat ∉ knownTypes)

theorem formed_words {type : Nat} {items : List UInt16} (htype : type = 0x000a ∨ type = 0x000d)
    (hfits : 2 * items.length < 2 ^ 16) : Formed type (packU16 (2 * items.length) ++ packWords items) where
  words _ := ⟨items, hfits, rfl⟩
  shortWords h := by omega
  octets h := by omega
  names h := by omega
  limit h := by omega

theorem formed_shortWords {type : Nat} {items : List UInt16} (htype : type = 0x002b ∨ type = 0x001b)
    (hfits : 2 * items.length < 2 ^ 8) :
    Formed type (UInt8.ofNat (2 * items.length) :: packWords items) where
  words h := by omega
  shortWords _ := ⟨items, hfits, rfl⟩
  octets h := by omega
  names h := by omega
  limit h := by omega

theorem formed_octets {type : Nat} {items : Bytes} (htype : type = 0x000b ∨ type = 0x002d)
    (hfits : items.length < 2 ^ 8) : Formed type (UInt8.ofNat items.length :: items) where
  words h := by omega
  shortWords h := by omega
  octets _ := ⟨items, hfits, rfl⟩
  names h := by omega
  limit h := by omega

theorem formed_names {names : List Bytes} (hnames : ∀ name ∈ names, name ≠ [] ∧ name.length < 2 ^ 8) :
    Formed 0x0010 (packU16 (packNames names).length ++ packNames names) where
  words h := by omega
  shortWords h := by omega
  octets h := by omega
  names _ := ⟨names, hnames, rfl⟩
  limit h := by omega

theorem formed_limit (limit : UInt16) : Formed 0x001c (packU16 limit.toNat) where
  words h := by omega
  shortWords h := by omega
  octets h := by omega
  names h := by omega
  limit _ := ⟨limit, rfl⟩

theorem formed_any {type : Nat} {body : Bytes}
    (htype : type ∉ [0x000a, 0x000d, 0x002b, 0x001b, 0x000b, 0x002d, 0x0010, 0x001c]) : Formed type body := by
  simp only [List.mem_cons, List.not_mem_nil, or_false, not_or] at htype
  exact ⟨by omega, by omega, by omega, by omega, by omega⟩

theorem unknown_facts {type : Nat} (h : type ∉ knownTypes) :
    type ≠ 0x0033 ∧ type ≠ 0xfe0d ∧
      type ∉ [0x000a, 0x000d, 0x002b, 0x001b, 0x000b, 0x002d, 0x0010, 0x001c] := by
  simp only [knownTypes, List.mem_cons, List.not_mem_nil, or_false, not_or] at h ⊢
  omega

namespace Item

def extension : Item → Extension
  | serverName body => .plain 0x0000 body (by decide) (by decide) (formed_any (by decide))
  | supportedGroups groups hfits => .plain 0x000a (packU16 (2 * groups.length) ++ packWords groups)
      (by decide) (by decide) (formed_words (.inl rfl) hfits)
  | ecPointFormats formats hfits => .plain 0x000b (UInt8.ofNat formats.length :: formats)
      (by decide) (by decide) (formed_octets (.inl rfl) hfits)
  | signatureAlgorithms schemes hfits => .plain 0x000d (packU16 (2 * schemes.length) ++ packWords schemes)
      (by decide) (by decide) (formed_words (.inr rfl) hfits)
  | alpn names hnames => .plain 0x0010 (packU16 (packNames names).length ++ packNames names)
      (by decide) (by decide) (formed_names hnames)
  | compressCertificate algs hfits => .plain 0x001b (UInt8.ofNat (2 * algs.length) :: packWords algs)
      (by decide) (by decide) (formed_shortWords (.inr rfl) hfits)
  | recordSizeLimit limit => .plain 0x001c (packU16 limit.toNat)
      (by decide) (by decide) (formed_limit limit)
  | supportedVersions versions hfits => .plain 0x002b
      (UInt8.ofNat (2 * versions.length) :: packWords versions)
      (by decide) (by decide) (formed_shortWords (.inl rfl) hfits)
  | pskKeyExchangeModes modes hfits => .plain 0x002d (UInt8.ofNat modes.length :: modes)
      (by decide) (by decide) (formed_octets (.inr rfl) hfits)
  | keyShare shares => .keyShare shares
  | encryptedClientHello payload => .encryptedClientHello payload
  | other type body htype => .plain type body (unknown_facts htype).1 (unknown_facts htype).2.1
      (formed_any (unknown_facts htype).2.2)

-- What the parser makes of it. The groups of a second key_share go behind those
-- of the first.
def record (d : Details) : Item → Details
  | serverName body => { d with
      serverNamePresent := true
      sniHost := if 5 ≤ body.length then some (String.ofList (PyText.latin1 (body.drop 5))) else d.sniHost }
  | supportedGroups groups _ => { d with supportedGroups := some (groups.map UInt16.toNat) }
  | ecPointFormats formats _ => { d with ecPointFormats := some (formats.map UInt8.toNat) }
  | signatureAlgorithms schemes _ => { d with signatureAlgorithms := some (schemes.map UInt16.toNat) }
  | alpn names _ => { d with alpn := some (names.map fun name => String.ofList (PyText.latin1 name)) }
  | compressCertificate algs _ => { d with certCompressionAlgs := some (algs.map UInt16.toNat) }
  | recordSizeLimit limit => { d with recordSizeLimit := some limit.toNat }
  | supportedVersions versions _ => { d with supportedVersions := some (versions.map UInt16.toNat) }
  | pskKeyExchangeModes modes _ => { d with pskKeyExchangeModes := some (modes.map UInt8.toNat) }
  | keyShare shares => { d with
      keyShareGroups := some (d.keyShareGroups.getD [] ++ shares.map fun share => share.group.toNat) }
  | encryptedClientHello _ | other _ _ _ => d

end Item

-- Every extension is that of an item.
theorem Extension.exists_item (e : Extension) : ∃ item : Item, item.extension = e := by
  cases e with
  | keyShare shares => exact ⟨.keyShare shares, rfl⟩
  | encryptedClientHello payload => exact ⟨.encryptedClientHello payload, rfl⟩
  | plain type body hkeyShare hech hformed =>
      by_cases h : type.toNat ∈ knownTypes
      · have hcases : ∀ n : UInt16, type.toNat = n.toNat → type = n := fun n hn => UInt16.toNat_inj.mp hn
        simp only [knownTypes, List.mem_cons, List.not_mem_nil, or_false] at h
        rcases h with h | h | h | h | h | h | h | h | h | h | h
        · obtain rfl := hcases 0x0000 h
          exact ⟨.serverName body, rfl⟩
        · obtain rfl := hcases 0x000a h
          obtain ⟨groups, hfits, rfl⟩ := hformed.words (.inl rfl)
          exact ⟨.supportedGroups groups hfits, rfl⟩
        · obtain rfl := hcases 0x000b h
          obtain ⟨formats, hfits, rfl⟩ := hformed.octets (.inl rfl)
          exact ⟨.ecPointFormats formats hfits, rfl⟩
        · obtain rfl := hcases 0x000d h
          obtain ⟨schemes, hfits, rfl⟩ := hformed.words (.inr rfl)
          exact ⟨.signatureAlgorithms schemes hfits, rfl⟩
        · obtain rfl := hcases 0x0010 h
          obtain ⟨names, hnames, rfl⟩ := hformed.names rfl
          exact ⟨.alpn names hnames, rfl⟩
        · obtain rfl := hcases 0x001b h
          obtain ⟨algs, hfits, rfl⟩ := hformed.shortWords (.inr rfl)
          exact ⟨.compressCertificate algs hfits, rfl⟩
        · obtain rfl := hcases 0x001c h
          obtain ⟨limit, rfl⟩ := hformed.limit rfl
          exact ⟨.recordSizeLimit limit, rfl⟩
        · obtain rfl := hcases 0x002b h
          obtain ⟨versions, hfits, rfl⟩ := hformed.shortWords (.inl rfl)
          exact ⟨.supportedVersions versions hfits, rfl⟩
        · obtain rfl := hcases 0x002d h
          obtain ⟨modes, hfits, rfl⟩ := hformed.octets (.inr rfl)
          exact ⟨.pskKeyExchangeModes modes hfits, rfl⟩
        · exact absurd h hkeyShare
        · exact absurd h hech
      · exact ⟨.other type body h, rfl⟩

theorem exists_items (es : List Extension) : ∃ items : List Item, es = items.map Item.extension := by
  induction es with
  | nil => exact ⟨[], rfl⟩
  | cons e es ih =>
      obtain ⟨item, hitem⟩ := e.exists_item
      obtain ⟨items, hitems⟩ := ih
      exact ⟨item :: items, by rw [List.map_cons, hitem, ← hitems]⟩

-- The readers, exactly.
theorem words_eq {b rest : Bytes} {start : Nat} {items : List UInt16}
    (h : b.drop start = packWords items ++ rest) :
    words b start (2 * items.length) = .ok (items.map UInt16.toNat) := by
  have hcount : (2 * items.length + 1) / 2 = items.length := by omega
  unfold words
  rw [hcount]
  induction items generalizing start with
  | nil => rfl
  | cons item items ih =>
      have hhead : b.drop start = packU16 item.toNat ++ (packWords items ++ rest) := by
        rw [h, packWords, List.flatMap_cons, List.append_assoc]
        rfl
      have hmore : (fun i => u16 b (start + 2 * i)) ∘ Nat.succ = fun i => u16 b (start + 2 + 2 * i) := by
        funext i
        show u16 b (start + 2 * (i + 1)) = _
        congr 1
        omega
      have hnext := ih (drop_step hhead) (by omega)
      rw [length_packU16] at hnext
      rw [List.length_cons, List.range_succ_eq_map, List.mapM_cons, List.mapM_map, hmore, hnext,
        Nat.mul_zero, Nat.add_zero, u16_drop item.toNat_lt hhead]
      rfl

theorem countedWords_eq {items : List UInt16} (hfits : 2 * items.length < 2 ^ 16) :
    countedWords (packU16 (2 * items.length) ++ packWords items) = .ok (items.map UInt16.toNat) := by
  have hwords := @words_eq (packU16 (2 * items.length) ++ packWords items) [] 2 items
    (List.append_nil _).symm
  unfold countedWords
  rw [@u16_drop _ (packWords items) 0 _ hfits rfl]
  exact hwords

theorem shortCountedWords_eq {items : List UInt16} (hfits : 2 * items.length < 2 ^ 8) :
    shortCountedWords (UInt8.ofNat (2 * items.length) :: packWords items) = .ok (items.map UInt16.toNat) := by
  have hwords := @words_eq (UInt8.ofNat (2 * items.length) :: packWords items) [] 1 items
    (List.append_nil _).symm
  unfold shortCountedWords
  rw [@octetAt_ofNat _ (packWords items) 0 _ hfits rfl]
  exact hwords

theorem countedOctets_eq {items : Bytes} (hfits : items.length < 2 ^ 8) :
    countedOctets (UInt8.ofNat items.length :: items) = .ok (items.map UInt8.toNat) := by
  have hslice := @slice_drop (UInt8.ofNat items.length :: items) items [] 1 (List.append_nil _).symm
  unfold countedOctets
  rw [@octetAt_ofNat _ items 0 _ hfits rfl]
  dsimp only [bind, Except.bind]
  rw [hslice]
  rfl

theorem alpnNames_eq {ed : Bytes} {names : List Bytes} {p fuel : Nat}
    (hnames : ∀ name ∈ names, name ≠ [] ∧ name.length < 2 ^ 8) (hed : ed.drop p = packNames names)
    (hfuel : names.length ≤ fuel) :
    alpnNames fuel ed p = .ok (names.map fun name => String.ofList (PyText.latin1 name)) := by
  induction names generalizing p fuel with
  | nil =>
      have hend : ¬p < ed.length := by
        rw [packNames, List.flatMap_nil, List.drop_eq_nil_iff] at hed
        omega
      cases fuel with
      | zero => rfl
      | succ fuel =>
          rw [alpnNames, if_neg hend]
          rfl
  | cons name names ih =>
      rw [List.forall_mem_cons] at hnames
      rw [packNames, List.flatMap_cons, List.cons_append] at hed
      cases fuel with
      | zero => simp at hfuel
      | succ fuel =>
          have hin : p < ed.length := by
            by_contra hno
            rw [List.drop_eq_nil_of_le (Nat.not_lt.mp hno)] at hed
            cases hed
          have hname : ed.drop (p + 1) = name ++ packNames names := by
            rw [← List.drop_drop, hed]
            rfl
          rw [alpnNames, if_pos hin, octetAt_ofNat hnames.1.2 hed]
          dsimp only [bind, Except.bind]
          rw [ih hnames.2 (drop_step hname) (Nat.le_of_succ_le_succ hfuel), slice_drop hname]
          rfl

theorem alpnNames_all {names : List Bytes} (hnames : ∀ name ∈ names, name ≠ [] ∧ name.length < 2 ^ 8) :
    alpnNames (packU16 (packNames names).length ++ packNames names).length
        (packU16 (packNames names).length ++ packNames names) 2 =
      .ok (names.map fun name => String.ofList (PyText.latin1 name)) := by
  apply alpnNames_eq hnames rfl
  have hle : names.length ≤ (packNames names).length :=
    length_le_flatMap (fun name => name.length.succ_pos) names
  rw [List.length_append, length_packU16]
  omega

theorem readShares_exact {ed : Bytes} {bodyOff p fuel : Nat} {shares : List KeyShare} {scan : Scan}
    (hed : ed.drop p = flat (shares.flatMap KeyShare.fields)) (hfuel : shares.length ≤ fuel) :
    readShares ed bodyOff fuel p scan = .ok { scan with
      keyshareGroups := scan.keyshareGroups ++ shares.map fun share => share.group.toNat
      ksKeyOffsets := scan.ksKeyOffsets ++ spots (bodyOff + p) (shares.flatMap KeyShare.fields) } := by
  induction shares generalizing p fuel scan with
  | nil =>
      have hend : ¬p + 4 ≤ ed.length := by
        rw [List.flatMap_nil, flat_nil, List.drop_eq_nil_iff] at hed
        omega
      have hsame : readShares ed bodyOff fuel p scan = .ok scan := by
        cases fuel with
        | zero => rfl
        | succ fuel => rw [readShares, if_neg hend]
      rw [hsame, List.flatMap_nil, spots_nil, List.map_nil, List.append_nil, List.append_nil]
  | cons share shares ih =>
      cases fuel with
      | zero => simp at hfuel
      | succ fuel =>
          rw [List.flatMap_cons, flat_append] at hed
          have hlen := share.fields_length
          have hin : p + 4 ≤ ed.length := by
            have hleft := congrArg List.length hed
            rw [List.length_drop, List.length_append] at hleft
            omega
          have hrest := drop_step hed
          rw [hlen, ← Nat.add_assoc] at hrest
          have hgroup : ed.drop p = packU16 share.group.toNat ++ (packU16 share.key.length ++
              (share.key ++ flat (shares.flatMap KeyShare.fields))) := by
            rw [hed, KeyShare.fields]
            simp only [flat_cons, flat_nil, List.append_nil, List.append_assoc]
          have hkey : ed.drop (p + 2) = packU16 share.key.length ++
              (share.key ++ flat (shares.flatMap KeyShare.fields)) := drop_step hgroup
          have hspots : spots (bodyOff + p) ((share :: shares).flatMap KeyShare.fields) =
              (bodyOff + p + 4, share.key.length) ::
                spots (bodyOff + (p + 4 + share.key.length)) (shares.flatMap KeyShare.fields) := by
            rw [List.flatMap_cons, spots_append, hlen, KeyShare.fields, spots_fixed, spots_free, spots_nil]
            simp only [List.length_append, length_packU16, List.cons_append, List.nil_append]
            congr 2
            omega
          rw [readShares, if_pos hin, u16_drop share.group.toNat_lt hgroup]
          dsimp only [bind, Except.bind]
          rw [u16_drop share.fits hkey]
          dsimp only
          rw [ih hrest (Nat.le_of_succ_le_succ hfuel), hspots]
          simp only [List.append_assoc, List.singleton_append, List.map_cons]

-- The spots of the extensions of one type.
def spotsOf (type : Nat) : Nat → List Extension → List (Nat × Nat)
  | _, [] => []
  | o, e :: es =>
      (if e.type = type then spots o e.fields else []) ++ spotsOf type (o + (flat e.fields).length) es

-- One more extension, at `o`, has been read.
def Scan.next (scan : Scan) (o : Nat) (item : Item) : Scan where
  exts := scan.exts ++ [item.extension.type]
  details := item.record scan.details
  keyshareGroups := (item.record scan.details).keyShareGroups.getD []
  ksKeyOffsets := scan.ksKeyOffsets ++ spotsOf 0x0033 o [item.extension]
  echOffsets := scan.echOffsets ++ spotsOf 0xfe0d o [item.extension]

-- `keyshare_groups` is the very list that stands in `details`.
def Scan.Shared (scan : Scan) : Prop := scan.keyshareGroups = scan.details.keyShareGroups.getD []

theorem spotsOf_single (type o : Nat) (e : Extension) :
    spotsOf type o [e] = if e.type = type then spots o e.fields else [] := List.append_nil _

-- What one pass of the loop does to an item, if the reader of its body does its part.
def Reads (item : Item) : Prop := ∀ (o : Nat) (scan : Scan), scan.Shared →
  readBody item.extension.type item.extension.body (o + 4)
    (if item.extension.type = 0xfe0d then
      { scan with
        exts := scan.exts ++ [item.extension.type]
        echOffsets := scan.echOffsets ++ [(o + 4, item.extension.body.length)] }
    else { scan with exts := scan.exts ++ [item.extension.type] }) = .ok (scan.next o item)

theorem reads_plain {item : Item} {type : UInt16} {body : Bytes} {hkeyShare : type.toNat ≠ 0x0033}
    {hech : type.toNat ≠ 0xfe0d} {hformed : Formed type.toNat body}
    (hitem : item.extension = .plain type body hkeyShare hech hformed)
    (hgroups : ∀ d, (item.record d).keyShareGroups = d.keyShareGroups)
    (hbody : ∀ (o : Nat) (scan : Scan), readBody type.toNat body o scan =
      .ok { scan with details := item.record scan.details }) : Reads item := by
  intro o scan hshared
  have htype : item.extension.type = type.toNat := by
    rw [hitem]
    rfl
  have hcontent : item.extension.body = body := by
    rw [hitem]
    exact List.append_nil body
  have hnext : scan.next o item =
      { scan with exts := scan.exts ++ [type.toNat], details := item.record scan.details } := by
    unfold Scan.next
    rw [spotsOf_single, spotsOf_single, htype, if_neg hkeyShare, if_neg hech, List.append_nil,
      List.append_nil, hgroups, ← hshared]
  rw [htype, hcontent, if_neg hech, hbody, hnext]

theorem reads_item (item : Item) : Reads item := by
  cases item with
  | serverName body =>
      apply reads_plain rfl fun _ => rfl
      intro o scan
      rfl
  | supportedGroups groups hfits =>
      apply reads_plain rfl fun _ => rfl
      intro o scan
      show (countedWords _).map _ = _
      rw [countedWords_eq hfits]
      rfl
  | ecPointFormats formats hfits =>
      apply reads_plain rfl fun _ => rfl
      intro o scan
      unfold readBody
      rw [countedOctets_eq hfits]
      rfl
  | signatureAlgorithms schemes hfits =>
      apply reads_plain rfl fun _ => rfl
      intro o scan
      show (countedWords _).map _ = _
      rw [countedWords_eq hfits]
      rfl
  | alpn names hnames =>
      apply reads_plain rfl fun _ => rfl
      intro o scan
      show (alpnNames _ _ 2).map _ = _
      rw [alpnNames_all hnames]
      rfl
  | compressCertificate algs hfits =>
      apply reads_plain rfl fun _ => rfl
      intro o scan
      show (shortCountedWords _).map _ = _
      rw [shortCountedWords_eq hfits]
      rfl
  | recordSizeLimit limit =>
      apply reads_plain rfl fun _ => rfl
      intro o scan
      have hread : u16 (packU16 limit.toNat) 0 = .ok limit.toNat :=
        @u16_drop _ [] 0 _ limit.toNat_lt (List.append_nil _).symm
      unfold readBody
      rw [hread]
      rfl
  | supportedVersions versions hfits =>
      apply reads_plain rfl fun _ => rfl
      intro o scan
      show (shortCountedWords _).map _ = _
      rw [shortCountedWords_eq hfits]
      rfl
  | pskKeyExchangeModes modes hfits =>
      apply reads_plain rfl fun _ => rfl
      intro o scan
      unfold readBody
      rw [countedOctets_eq hfits]
      rfl
  | keyShare shares =>
      intro o scan hshared
      have hcount : shares.length ≤ (flat (shares.flatMap KeyShare.fields)).length := by
        rw [flat_flatMap]
        exact length_le_flatMap (fun share => by rw [share.fields_length]; omega) shares
      have hfuel : shares.length ≤ (Extension.keyShare shares).body.length := by
        show _ ≤ (packU16 _ ++ flat (shares.flatMap KeyShare.fields)).length
        rw [List.length_append]
        omega
      have hread := @readShares_exact (Extension.keyShare shares).body (o + 4) 2 _ shares
        { scan with exts := scan.exts ++ [0x0033] } rfl hfuel
      show (readShares (Extension.keyShare shares).body (o + 4) (Extension.keyShare shares).body.length 2
        { scan with exts := scan.exts ++ [0x0033] }).map _ = _
      rw [hread]
      unfold Scan.Shared at hshared
      unfold Scan.next
      rw [spotsOf_single, spotsOf_single]
      simp only [Except.map, Item.record, hshared]
      show Except.ok _ = Except.ok _
      congr 2
      exact (List.append_nil _).symm
  | encryptedClientHello payload =>
      intro o scan hshared
      have hbody : (Extension.encryptedClientHello payload).body = payload := List.append_nil payload
      have hnext : scan.next o (.encryptedClientHello payload) = { scan with
          exts := scan.exts ++ [0xfe0d]
          echOffsets := scan.echOffsets ++ [(o + 4, payload.length)] } := by
        unfold Scan.next
        rw [spotsOf_single, spotsOf_single]
        show Scan.mk _ _ (scan.details.keyShareGroups.getD []) (scan.ksKeyOffsets ++ [])
          (scan.echOffsets ++ [_]) = _
        rw [List.append_nil, ← hshared]
        rfl
      rw [hnext]
      show Except.ok { scan with
        exts := scan.exts ++ [0xfe0d]
        echOffsets := scan.echOffsets ++ [(o + 4, (Extension.encryptedClientHello payload).body.length)] } = _
      rw [hbody]
  | other type body htype =>
      apply reads_plain rfl fun _ => rfl
      intro o scan
      simp only [knownTypes, List.mem_cons, List.not_mem_nil, or_false, not_or] at htype
      simp only [readBody, htype, if_false]
      rfl

-- All of the extensions from `o` on have been read.
def Scan.after : Scan → Nat → List Item → Scan
  | scan, _, [] => scan
  | scan, o, item :: items => (scan.next o item).after (o + (flat item.extension.fields).length) items

theorem shared_next (scan : Scan) (o : Nat) (item : Item) : (scan.next o item).Shared := rfl

theorem after_exts (scan : Scan) (o : Nat) (items : List Item) :
    (scan.after o items).exts = scan.exts ++ (items.map Item.extension).map Extension.type := by
  induction items generalizing scan o with
  | nil => exact (List.append_nil _).symm
  | cons item items ih =>
      rw [Scan.after, ih]
      exact List.append_assoc _ [_] _

theorem after_details (scan : Scan) (o : Nat) (items : List Item) :
    (scan.after o items).details = items.foldl Item.record scan.details := by
  induction items generalizing scan o with
  | nil => rfl
  | cons item items ih =>
      rw [Scan.after, ih]
      rfl

theorem spotsOf_cons (type o : Nat) (e : Extension) (es : List Extension) :
    spotsOf type o (e :: es) = spotsOf type o [e] ++ spotsOf type (o + (flat e.fields).length) es := by
  rw [spotsOf_single, spotsOf]

theorem after_ksKeyOffsets (scan : Scan) (o : Nat) (items : List Item) :
    (scan.after o items).ksKeyOffsets = scan.ksKeyOffsets ++ spotsOf 0x0033 o (items.map Item.extension) := by
  induction items generalizing scan o with
  | nil => exact (List.append_nil _).symm
  | cons item items ih =>
      rw [Scan.after, ih, List.map_cons, spotsOf_cons, ← List.append_assoc]
      rfl

theorem after_echOffsets (scan : Scan) (o : Nat) (items : List Item) :
    (scan.after o items).echOffsets = scan.echOffsets ++ spotsOf 0xfe0d o (items.map Item.extension) := by
  induction items generalizing scan o with
  | nil => exact (List.append_nil _).symm
  | cons item items ih =>
      rw [Scan.after, ih, List.map_cons, spotsOf_cons, ← List.append_assoc]
      rfl

theorem readExtension_item {hs rest : Bytes} {o : Nat} {item : Item} {scan : Scan}
    (hfits : item.extension.body.length < 2 ^ 16) (hhs : hs.drop o = flat item.extension.fields ++ rest)
    (hshared : scan.Shared) :
    readExtension hs o scan = .ok (o + (flat item.extension.fields).length, scan.next o item) := by
  rw [item.extension.flat_fields, List.append_assoc, List.append_assoc] at hhs
  have hlen : hs.drop (o + 2) = packU16 item.extension.body.length ++ (item.extension.body ++ rest) :=
    drop_step hhs
  have hbody : hs.drop (o + 4) = item.extension.body ++ rest := drop_step hlen
  have hread := reads_item item o scan hshared
  unfold readExtension
  rw [u16_drop item.extension.type_lt hhs]
  dsimp only [bind, Except.bind]
  rw [u16_drop hfits hlen]
  dsimp only
  rw [slice_drop hbody, hread, item.extension.fields_length, ← Nat.add_assoc]
  rfl

-- The loop reads every item in its turn.
theorem readExtensions_items {hs rest : Bytes} {o fuel : Nat} {items : List Item} {scan : Scan}
    (hfits : ∀ item ∈ items, item.extension.body.length < 2 ^ 16)
    (hhs : hs.drop o = flat ((items.map Item.extension).flatMap Extension.fields) ++ rest)
    (hshared : scan.Shared) (hfuel : items.length ≤ fuel) :
    readExtensions hs (o + (flat ((items.map Item.extension).flatMap Extension.fields)).length) fuel o scan =
      .ok (scan.after o items) := by
  induction items generalizing o fuel scan with
  | nil =>
      cases fuel with
      | zero => rfl
      | succ fuel =>
          rw [readExtensions, List.map_nil, List.flatMap_nil, flat_nil, List.length_nil, Nat.add_zero,
            if_neg (Nat.lt_irrefl o)]
          rfl
  | cons item items ih =>
      cases fuel with
      | zero => simp at hfuel
      | succ fuel =>
          rw [List.forall_mem_cons] at hfits
          rw [List.map_cons, List.flatMap_cons, flat_append] at hhs ⊢
          rw [List.append_assoc] at hhs
          have hlen := item.extension.fields_length
          rw [readExtensions, List.length_append, if_pos (by omega),
            readExtension_item hfits.1 hhs hshared]
          dsimp only [bind, Except.bind]
          rw [← Nat.add_assoc, ih hfits.2 (drop_step hhs) (shared_next scan o item)
            (Nat.le_of_succ_le_succ hfuel)]
          rfl

-- Where the extensions of a message begin.
def Hello.start (h : Hello) : Nat :=
  44 + h.sessionId.length + h.suites.length + h.compression.length

-- What there is to say of a message whose extensions say `items`.
def Hello.parsed (h : Hello) (items : List Item) : Parsed where
  legacyVersion := h.legacyVersion.toNat
  cipherSuites := h.cipherSuites.map UInt16.toNat
  extensions := h.extensions.map Extension.type
  details := items.foldl Item.record {}
  offsets := ⟨(6, 32), (39, h.sessionId.length), spotsOf 0x0033 h.start h.extensions,
    spotsOf 0xfe0d h.start h.extensions⟩
  rawHex := hex h.encode

-- Texts in place of their digests, so that every difference shows.
def verbatim : Digests := ⟨id, id⟩

theorem named_record {item : Item} {d : Details} (h : d.Named) : (item.record d).Named := by
  cases item with
  | alpn names hnames =>
      intro texts htexts text hmem
      obtain rfl := Option.some.inj htexts
      obtain ⟨name, hname, rfl⟩ := List.mem_map.mp hmem
      exact latin1_ne_nil (hnames name hname).1
  | serverName | supportedGroups | ecPointFormats | signatureAlgorithms | compressCertificate
  | recordSizeLimit | supportedVersions | pskKeyExchangeModes | keyShare | encryptedClientHello
  | other => exact h

theorem named_foldl {items : List Item} {d : Details} (h : d.Named) : (items.foldl Item.record d).Named := by
  induction items generalizing d with
  | nil => exact h
  | cons item items ih => exact ih (named_record h)

theorem parse_items (digests : Digests) {h : Hello} {items : List Item}
    (hitems : h.extensions = items.map Item.extension) :
    ∃ prints, fingerprints digests (h.parsed items) = .ok prints ∧
      parseClientHello digests h.encode = .ok (h.parsed items, prints) := by
  have hfit := h.suitesFit
  rw [← Hello.suites_length] at hfit
  have hkind : octetAt h.encode 0 = .ok 1 := rfl
  have hversion := encode_drop h
  have hrandom := drop_step hversion
  have hsid := drop_step hrandom
  rw [h.randomLength] at hsid
  have hsession := drop_step hsid
  have hcount := drop_step hsession
  have hsuites := drop_step hcount
  have hcomp := drop_step hsuites
  have hcompression := drop_step hcomp
  have htotal := drop_step hcompression
  have htail := drop_step htotal
  have hplace : 39 + h.sessionId.length + 2 + h.suites.length + 1 + h.compression.length + 2 = h.start := by
    unfold Hello.start
    omega
  have hciphers : words h.encode (39 + h.sessionId.length + 2) h.suites.length =
      .ok (h.cipherSuites.map UInt16.toNat) := by
    rw [Hello.suites_length]
    exact words_eq hsuites
  have hall : flat h.tail = flat ((items.map Item.extension).flatMap Extension.fields) := by
    rw [Hello.tail, hitems]
  have hfits : ∀ item ∈ items, item.extension.body.length < 2 ^ 16 := by
    intro item hmem
    apply h.body_fits
    rw [hitems]
    exact List.mem_map_of_mem hmem
  have hfuel : items.length ≤ (flat h.tail).length := by
    have hle := extensions_length_le h.extensions
    rw [hitems, List.length_map, ← hall] at hle
    exact hle
  have hstop : readExtensions h.encode (39 + h.sessionId.length + 2 + h.suites.length + 1 +
        h.compression.length + 2 + (flat h.tail).length) (flat h.tail).length
      (39 + h.sessionId.length + 2 + h.suites.length + 1 + h.compression.length + 2) {} =
        .ok (Scan.after {} h.start items) := by
    rw [← hplace, hall]
    rw [hall] at htail hfuel
    exact readExtensions_items hfits htail rfl hfuel
  have hparsed : parsedFrom h (h.cipherSuites.map UInt16.toNat) (Scan.after {} h.start items) =
      h.parsed items := by
    unfold parsedFrom Hello.parsed
    rw [after_exts, after_details, after_ksKeyOffsets, after_echOffsets, ← hitems]
    rfl
  have hnamed : (h.parsed items).details.Named := named_foldl fun _ hsome => by cases hsome
  obtain ⟨prints, hprints⟩ := fingerprints_total digests hnamed
  have hsidLen : octetAt h.encode 38 = .ok h.sessionId.length := octetAt_ofNat h.sessionIdFits hsid
  have hcsLen : u16 h.encode (39 + h.sessionId.length) = .ok h.suites.length := u16_drop hfit hcount
  have hcompLen : octetAt h.encode (39 + h.sessionId.length + 2 + h.suites.length) =
      .ok h.compression.length :=
    octetAt_ofNat h.compressionFits hcomp
  have hextTotal : u16 h.encode (39 + h.sessionId.length + 2 + h.suites.length + 1 + h.compression.length) =
      .ok (flat h.tail).length := u16_drop h.extensionsFit htotal
  refine ⟨prints, hprints, ?_⟩
  rw [← hparsed] at hprints ⊢
  unfold parseClientHello
  simp only [hkind, u16_drop h.legacyVersion.toNat_lt hversion, hsidLen, hcsLen, hciphers, hcompLen,
    hextTotal, hstop, bind, Except.bind, pure, Except.pure, ne_eq, not_true_eq_false, ↓reduceIte]
  unfold parsedFrom at hprints ⊢
  rw [hprints]

end NeverFox.Harness
