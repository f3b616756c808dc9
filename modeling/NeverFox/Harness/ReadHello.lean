import NeverFox.Harness.ClientHello
import NeverFox.Harness.Hello

namespace NeverFox.Harness

open H2 (packU16 packU32)
open Masking

-- Where the parser has come to: what is left of the message is known.
theorem drop_step {b xs rest : Bytes} {o : Nat} (h : b.drop o = xs ++ rest) :
    b.drop (o + xs.length) = rest := by
  rw [← List.drop_drop, h, List.drop_left]

theorem octetAt_drop {b rest : Bytes} {o : Nat} {octet : UInt8} (h : b.drop o = octet :: rest) :
    octetAt b o = .ok octet.toNat := by
  have hget : b[o]? = some octet := by
    have hzero : (b.drop o)[0]? = some octet := by
      rw [h]
      rfl
    rwa [List.getElem?_drop, Nat.add_zero] at hzero
  unfold octetAt
  rw [hget]

theorem octetAt_of_lt {b : Bytes} {o : Nat} (h : o < b.length) : ∃ v, octetAt b o = .ok v := by
  unfold octetAt
  rw [List.getElem?_eq_getElem h]
  exact ⟨_, rfl⟩

theorem octetAt_ofNat {b rest : Bytes} {o n : Nat} (hn : n < 2 ^ 8) (h : b.drop o = UInt8.ofNat n :: rest) :
    octetAt b o = .ok n := by
  rw [octetAt_drop h, UInt8.toNat_ofNat', Nat.mod_eq_of_lt hn]

theorem u16_drop {b rest : Bytes} {o n : Nat} (hn : n < 2 ^ 16) (h : b.drop o = packU16 n ++ rest) :
    u16 b o = .ok n := by
  have hlow : b.drop (o + 1) = UInt8.ofNat n :: rest := by
    rw [← List.drop_drop, h]
    rfl
  unfold u16
  rw [octetAt_drop h, octetAt_drop hlow]
  dsimp only [bind, Except.bind, pure, Except.pure]
  rw [UInt8.toNat_ofNat', UInt8.toNat_ofNat']
  congr 1
  omega

theorem u16_of_lt {b : Bytes} {o : Nat} (h : o + 1 < b.length) : ∃ v, u16 b o = .ok v := by
  obtain ⟨high, hhigh⟩ := octetAt_of_lt (Nat.lt_of_succ_lt h)
  obtain ⟨low, hlow⟩ := octetAt_of_lt h
  unfold u16
  rw [hhigh, hlow]
  exact ⟨_, rfl⟩

theorem slice_drop {b xs rest : Bytes} {o : Nat} (h : b.drop o = xs ++ rest) :
    slice b o (o + xs.length) = xs := by
  unfold slice
  rw [List.drop_take, h, Nat.add_sub_cancel_left, List.take_left]

theorem mapM_total {ι β : Type} {f : ι → Except Exn β} {xs : List ι} (h : ∀ x ∈ xs, ∃ y, f x = .ok y) :
    ∃ ys, xs.mapM f = .ok ys := by
  induction xs with
  | nil => exact ⟨[], rfl⟩
  | cons x xs ih =>
      rw [List.forall_mem_cons] at h
      obtain ⟨y, hy⟩ := h.1
      obtain ⟨ys, hys⟩ := ih h.2
      rw [List.mapM_cons, hy, hys]
      exact ⟨y :: ys, rfl⟩

-- Words that lie in the text can be read.
theorem words_total {b : Bytes} {start n : Nat} (heven : n % 2 = 0) (hfits : start + n ≤ b.length) :
    ∃ list, words b start n = .ok list := by
  apply mapM_total
  intro i hi
  rw [List.mem_range] at hi
  exact u16_of_lt (by omega)

theorem countedWords_total {ed : Bytes} {items : List UInt16} (hitems : 2 * items.length < 2 ^ 16)
    (hed : ed = packU16 (2 * items.length) ++ items.flatMap fun item => packU16 item.toNat) :
    ∃ list, countedWords ed = .ok list := by
  have hlen : ed.length = 2 + 2 * items.length := by
    rw [hed, List.length_append, flatMap_words_length, length_packU16]
  obtain ⟨list, hlist⟩ := @words_total ed 2 (2 * items.length) (by omega) (by omega)
  unfold countedWords
  rw [@u16_drop ed _ 0 _ hitems hed]
  exact ⟨list, hlist⟩

theorem shortCountedWords_total {ed : Bytes} {items : List UInt16} (hitems : 2 * items.length < 2 ^ 8)
    (hed : ed = UInt8.ofNat (2 * items.length) :: items.flatMap fun item => packU16 item.toNat) :
    ∃ list, shortCountedWords ed = .ok list := by
  have hlen : ed.length = 1 + 2 * items.length := by
    rw [hed, List.length_cons, flatMap_words_length, Nat.add_comm]
  obtain ⟨list, hlist⟩ := @words_total ed 1 (2 * items.length) (by omega) (by omega)
  unfold shortCountedWords
  rw [@octetAt_ofNat ed _ 0 _ hitems hed]
  exact ⟨list, hlist⟩

theorem countedOctets_total {ed items : Bytes} {count : UInt8} (hed : ed = count :: items) :
    ∃ list, countedOctets ed = .ok list := by
  have hpos : 0 < ed.length := by
    rw [hed]
    exact Nat.succ_pos _
  obtain ⟨n, hn⟩ := octetAt_of_lt hpos
  unfold countedOctets
  rw [hn]
  exact ⟨_, rfl⟩

theorem latin1_ne_nil {data : Bytes} (h : data ≠ []) : String.ofList (PyText.latin1 data) ≠ "" := by
  intro heq
  have hlist := congrArg String.toList heq
  rw [String.toList_ofList, PyText.latin1] at hlist
  exact h (List.map_eq_nil_iff.mp hlist)

-- The names of a well-formed list are read, and none of them is empty.
theorem alpnNames_total {ed : Bytes} {names : List Bytes} {p fuel : Nat}
    (hnames : ∀ name ∈ names, name ≠ [] ∧ name.length < 2 ^ 8)
    (hed : ed.drop p = names.flatMap fun name => UInt8.ofNat name.length :: name)
    (hfuel : names.length ≤ fuel) : ∃ texts, alpnNames fuel ed p = .ok texts ∧ ∀ text ∈ texts, text ≠ "" := by
  induction names generalizing p fuel with
  | nil =>
      have hend : ¬p < ed.length := by
        rw [List.flatMap_nil, List.drop_eq_nil_iff] at hed
        omega
      refine ⟨[], ?_, by simp⟩
      cases fuel with
      | zero => rfl
      | succ fuel => rw [alpnNames, if_neg hend]
  | cons name names ih =>
      rw [List.forall_mem_cons] at hnames
      rw [List.flatMap_cons, List.cons_append] at hed
      cases fuel with
      | zero => simp at hfuel
      | succ fuel =>
          have hin : p < ed.length := by
            by_contra hno
            rw [List.drop_eq_nil_of_le (Nat.not_lt.mp hno)] at hed
            cases hed
          have hname : ed.drop (p + 1) =
              name ++ names.flatMap fun name => UInt8.ofNat name.length :: name := by
            rw [← List.drop_drop, hed]
            rfl
          obtain ⟨texts, htexts, hne⟩ := ih hnames.2 (drop_step hname) (Nat.le_of_succ_le_succ hfuel)
          rw [alpnNames, if_pos hin, octetAt_ofNat hnames.1.2 hed]
          dsimp only [bind, Except.bind]
          rw [htexts, slice_drop hname]
          refine ⟨_, rfl, ?_⟩
          rw [List.forall_mem_cons]
          exact ⟨latin1_ne_nil hnames.1.1, hne⟩

theorem alpnNames_ok {ed : Bytes} {names : List Bytes}
    (hnames : ∀ name ∈ names, name ≠ [] ∧ name.length < 2 ^ 8)
    (hed : ed = packU16 (names.flatMap fun name => UInt8.ofNat name.length :: name).length ++
      names.flatMap fun name => UInt8.ofNat name.length :: name) :
    ∃ texts, alpnNames ed.length ed 2 = .ok texts ∧ ∀ text ∈ texts, text ≠ "" := by
  apply alpnNames_total hnames
  · rw [hed]
    rfl
  · have hne : ∀ name : Bytes, 0 < (UInt8.ofNat name.length :: name).length := fun _ => Nat.succ_pos _
    have hle : names.length ≤ (names.flatMap fun name => UInt8.ofNat name.length :: name).length :=
      length_le_flatMap hne names
    rw [hed, List.length_append, length_packU16]
    omega

-- The names found so far can all be looked into.
def Details.Named (d : Details) : Prop := ∀ names, d.alpn = some names → ∀ name ∈ names, name ≠ ""

-- A well-formed body is read, and has no free field.
theorem readBody_plain {et : Nat} {ed : Bytes} (hkeyShare : et ≠ 0x0033) (hformed : Formed et ed)
    (bodyOff : Nat)
    {scan : Scan} (hn : scan.details.Named) :
    ∃ d : Details, readBody et ed bodyOff scan = .ok { scan with details := d } ∧ d.Named := by
  unfold readBody
  dsimp only
  by_cases h : et = 0x000a
  · obtain ⟨items, hitems, hed⟩ := hformed.words (.inl h)
    obtain ⟨list, hlist⟩ := countedWords_total hitems hed
    rw [if_pos h, hlist]
    exact ⟨_, rfl, hn⟩
  rw [if_neg h]
  by_cases h : et = 0x000b
  · obtain ⟨items, _, hed⟩ := hformed.octets (.inl h)
    obtain ⟨list, hlist⟩ := countedOctets_total hed
    rw [if_pos h, hlist]
    exact ⟨_, rfl, hn⟩
  rw [if_neg h]
  by_cases h : et = 0x000d
  · obtain ⟨items, hitems, hed⟩ := hformed.words (.inr h)
    obtain ⟨list, hlist⟩ := countedWords_total hitems hed
    rw [if_pos h, hlist]
    exact ⟨_, rfl, hn⟩
  rw [if_neg h]
  by_cases h : et = 0x0010
  · obtain ⟨names, hnames, hed⟩ := hformed.names h
    obtain ⟨texts, htexts, hne⟩ := alpnNames_ok hnames hed
    rw [if_pos h, htexts]
    refine ⟨_, rfl, ?_⟩
    intro names hsome
    obtain rfl := Option.some.inj hsome
    exact hne
  rw [if_neg h]
  by_cases h : et = 0x002b
  · obtain ⟨items, hitems, hed⟩ := hformed.shortWords (.inl h)
    obtain ⟨list, hlist⟩ := shortCountedWords_total hitems hed
    rw [if_pos h, hlist]
    exact ⟨_, rfl, hn⟩
  rw [if_neg h]
  by_cases h : et = 0x002d
  · obtain ⟨items, _, hed⟩ := hformed.octets (.inr h)
    obtain ⟨list, hlist⟩ := countedOctets_total hed
    rw [if_pos h, hlist]
    exact ⟨_, rfl, hn⟩
  rw [if_neg h]
  by_cases h : et = 0x001c
  · obtain ⟨limit, hed⟩ := hformed.limit h
    have hlimit : u16 ed 0 = .ok limit.toNat :=
      u16_drop limit.toNat_lt (by rw [List.drop_zero, hed, List.append_nil])
    rw [if_pos h, hlimit]
    exact ⟨_, rfl, hn⟩
  rw [if_neg h]
  by_cases h : et = 0x0000
  · rw [if_pos h]
    exact ⟨_, rfl, hn⟩
  rw [if_neg h, if_neg hkeyShare]
  by_cases h : et = 0x001b
  · obtain ⟨items, hitems, hed⟩ := hformed.shortWords (.inr h)
    obtain ⟨list, hlist⟩ := shortCountedWords_total hitems hed
    rw [if_pos h, hlist]
    exact ⟨_, rfl, hn⟩
  rw [if_neg h]
  exact ⟨scan.details, rfl, hn⟩

theorem KeyShare.fields_length (share : KeyShare) : (flat share.fields).length = 4 + share.key.length := by
  unfold KeyShare.fields
  rw [flat_cons, flat_cons, flat_nil, List.append_nil, List.length_append, List.length_append, length_packU16,
    length_packU16]

-- The key shares are read one by one, and the spots of their keys noted.
theorem readShares_eq {ed : Bytes} {bodyOff p fuel : Nat} {shares : List KeyShare} {scan : Scan}
    (hed : ed.drop p = flat (shares.flatMap KeyShare.fields)) (hfuel : shares.length ≤ fuel) :
    ∃ scan', readShares ed bodyOff fuel p scan = .ok scan' ∧ scan'.details = scan.details ∧
      scan'.echOffsets = scan.echOffsets ∧
      scan'.ksKeyOffsets = scan.ksKeyOffsets ++ spots (bodyOff + p) (shares.flatMap KeyShare.fields) := by
  induction shares generalizing p fuel scan with
  | nil =>
      have hend : ¬p + 4 ≤ ed.length := by
        rw [List.flatMap_nil, flat_nil, List.drop_eq_nil_iff] at hed
        omega
      refine ⟨scan, ?_, rfl, rfl, (List.append_nil _).symm⟩
      cases fuel with
      | zero => rfl
      | succ fuel => rw [readShares, if_neg hend]
  | cons share shares ih =>
      cases fuel with
      | zero => simp at hfuel
      | succ fuel =>
          rw [List.flatMap_cons, flat_append] at hed
          have hlen := share.fields_length
          have hin : p + 4 ≤ ed.length := by
            have hleft := congrArg List.length hed
            rw [List.length_drop, List.length_append] at hleft
            omega
          have hrest := drop_step hed
          rw [hlen, ← Nat.add_assoc] at hrest
          have hgroup : ed.drop p = packU16 share.group.toNat ++ (packU16 share.key.length ++
              (share.key ++ flat (shares.flatMap KeyShare.fields))) := by
            rw [hed, KeyShare.fields]
            simp only [flat_cons, flat_nil, List.append_nil, List.append_assoc]
          have hkey : ed.drop (p + 2) = packU16 share.key.length ++
              (share.key ++ flat (shares.flatMap KeyShare.fields)) := drop_step hgroup
          rw [readShares, if_pos hin, u16_drop share.group.toNat_lt hgroup]
          dsimp only [bind, Except.bind]
          rw [u16_drop share.fits hkey]
          dsimp only
          obtain ⟨scan', hread, hd, hech, hks⟩ := @ih (p + 4 + share.key.length) fuel
            { scan with
              keyshareGroups := scan.keyshareGroups ++ [share.group.toNat]
              ksKeyOffsets := scan.ksKeyOffsets ++ [(bodyOff + p + 4, share.key.length)] }
            hrest (Nat.le_of_succ_le_succ hfuel)
          refine ⟨scan', hread, hd, hech, ?_⟩
          rw [hks, List.flatMap_cons, spots_append, hlen, KeyShare.fields, spots_fixed, spots_free, spots_nil,
            List.append_assoc]
          simp only [List.length_append, length_packU16, List.cons_append, List.nil_append]
          congr 3
          omega

-- The spots found so far, in no matter what order.
def Scan.spots (scan : Scan) : List (Nat × Nat) := scan.ksKeyOffsets ++ scan.echOffsets

theorem Extension.flat_fields (e : Extension) :
    flat e.fields = packU16 e.type ++ (packU16 e.body.length ++ e.body) := by
  unfold Extension.fields
  rw [flat_cons, List.append_assoc]
  rfl

theorem Extension.fields_length (e : Extension) : (flat e.fields).length = 4 + e.body.length := by
  rw [e.flat_fields, List.length_append, List.length_append, length_packU16, length_packU16]
  omega

-- What the body of an extension adds to the spots is where its free fields are.
theorem readBody_eq (e : Extension) (o : Nat) {scan : Scan} (hn : scan.details.Named) :
    ∃ scan', readBody e.type e.body (o + 4) (if e.type = 0xfe0d then
        { scan with echOffsets := scan.echOffsets ++ [(o + 4, e.body.length)] } else scan) = .ok scan' ∧
      scan'.details.Named ∧
      ∀ spot, spot ∈ scan'.spots ↔ spot ∈ scan.spots ∨ spot ∈ Masking.spots o e.fields := by
  cases e with
  | keyShare shares =>
      have hbody : (Extension.keyShare shares).body =
          packU16 (flat (shares.flatMap KeyShare.fields)).length ++
            flat (shares.flatMap KeyShare.fields) := rfl
      have hcount : shares.length ≤ (flat (shares.flatMap KeyShare.fields)).length := by
        rw [flat_flatMap]
        exact length_le_flatMap (fun share => by rw [share.fields_length]; omega) shares
      have hfuel : shares.length ≤ (Extension.keyShare shares).body.length := by
        rw [hbody, List.length_append]
        omega
      have hdrop : (Extension.keyShare shares).body.drop 2 = flat (shares.flatMap KeyShare.fields) := rfl
      obtain ⟨scan', hread, hd, hech, hks⟩ := @readShares_eq _ (o + 4) 2 _ shares scan hdrop hfuel
      have hbranch : readBody 0x0033 (Extension.keyShare shares).body (o + 4) scan =
          (readShares (Extension.keyShare shares).body (o + 4)
            (Extension.keyShare shares).body.length 2 scan).map
            fun scan => { scan
                with details := { scan.details with keyShareGroups := some scan.keyshareGroups } } :=
        rfl
      show ∃ scan', readBody 0x0033 (Extension.keyShare shares).body (o + 4) scan = .ok scan' ∧ _
      rw [hbranch, hread]
      refine ⟨_, rfl, ?_, ?_⟩
      · intro names hsome
        rw [← hd] at hn
        exact hn names hsome
      · intro spot
        have hspots : Masking.spots o (Extension.keyShare shares).fields =
            Masking.spots (o + 4 + 2) (shares.flatMap KeyShare.fields) := rfl
        unfold Scan.spots
        dsimp only
        rw [hks, hech, hspots]
        simp only [List.mem_append]
        tauto
  | encryptedClientHello payload =>
      have hbody : (Extension.encryptedClientHello payload).body = payload := List.append_nil payload
      rw [hbody]
      refine ⟨{ scan with echOffsets := scan.echOffsets ++ [(o + 4, payload.length)] }, rfl, hn, ?_⟩
      intro spot
      have hspots : Masking.spots o (Extension.encryptedClientHello payload).fields =
          [(o + 4, payload.length)] := rfl
      unfold Scan.spots
      dsimp only
      rw [hspots, ← List.append_assoc, List.mem_append]
  | plain type body hkeyShare hech hformed =>
      have hbody : (Extension.plain type body hkeyShare hech hformed).body = body := List.append_nil body
      have htype : (Extension.plain type body hkeyShare hech hformed).type = type.toNat := rfl
      obtain ⟨d, hread, hd⟩ := readBody_plain hkeyShare hformed (o + 4) hn
      rw [hbody, htype, if_neg hech]
      refine ⟨{ scan with details := d }, hread, hd, ?_⟩
      intro spot
      have hspots : Masking.spots o (Extension.plain type body hkeyShare hech hformed).fields = [] := rfl
      rw [hspots]
      exact ⟨.inl, fun h => h.resolve_right List.not_mem_nil⟩

theorem readExtension_eq {hs rest : Bytes} {o : Nat} {e : Extension} {scan : Scan}
    (hfits : e.body.length < 2 ^ 16) (hhs : hs.drop o = flat e.fields ++ rest) (hn : scan.details.Named) :
    ∃ scan', readExtension hs o scan = .ok (o + (flat e.fields).length, scan') ∧ scan'.details.Named ∧
      ∀ spot, spot ∈ scan'.spots ↔ spot ∈ scan.spots ∨ spot ∈ Masking.spots o e.fields := by
  rw [e.flat_fields, List.append_assoc, List.append_assoc] at hhs
  have hlen : hs.drop (o + 2) = packU16 e.body.length ++ (e.body ++ rest) := drop_step hhs
  have hbody : hs.drop (o + 4) = e.body ++ rest := drop_step hlen
  obtain ⟨scan', hread, hn', hspots⟩ := @readBody_eq e o { scan with exts := scan.exts ++ [e.type] } hn
  unfold readExtension
  rw [u16_drop e.type_lt hhs]
  dsimp only [bind, Except.bind]
  rw [u16_drop hfits hlen]
  dsimp only
  rw [slice_drop hbody, hread]
  refine ⟨scan', ?_, hn', hspots⟩
  rw [e.fields_length, ← Nat.add_assoc]
  rfl

-- The loop over the extensions reads them all.
theorem readExtensions_eq {hs rest : Bytes} {o fuel : Nat} {es : List Extension} {scan : Scan}
    (hfits : ∀ e ∈ es, e.body.length < 2 ^ 16)
    (hhs : hs.drop o = flat (es.flatMap Extension.fields) ++ rest) (hn : scan.details.Named)
    (hfuel : es.length ≤ fuel) :
    ∃ scan', readExtensions hs (o + (flat (es.flatMap Extension.fields)).length) fuel o scan = .ok scan' ∧
      scan'.details.Named ∧
      ∀ spot, spot ∈ scan'.spots ↔
        spot ∈ scan.spots ∨ spot ∈ Masking.spots o (es.flatMap Extension.fields) := by
  induction es generalizing o fuel scan with
  | nil =>
      refine ⟨scan, ?_, hn, fun spot => ⟨.inl, fun h => h.resolve_right List.not_mem_nil⟩⟩
      cases fuel with
      | zero => rfl
      | succ fuel => rw [readExtensions, List.flatMap_nil, flat_nil,
          List.length_nil, Nat.add_zero, if_neg (Nat.lt_irrefl o)]
  | cons e es ih =>
      cases fuel with
      | zero => simp at hfuel
      | succ fuel =>
          rw [List.forall_mem_cons] at hfits
          rw [List.flatMap_cons, flat_append] at hhs ⊢
          rw [List.append_assoc] at hhs
          have hlen := e.fields_length
          obtain ⟨scan₁, hread, hn₁, hspots₁⟩ := readExtension_eq hfits.1 hhs hn
          obtain ⟨scan₂, hmore, hn₂, hspots₂⟩ := ih hfits.2 (drop_step hhs) hn₁ (Nat.le_of_succ_le_succ hfuel)
          rw [readExtensions, List.length_append, if_pos (by omega), hread]
          dsimp only [bind, Except.bind]
          rw [← Nat.add_assoc, hmore]
          refine ⟨scan₂, rfl, hn₂, ?_⟩
          intro spot
          rw [hspots₂, hspots₁, spots_append, List.mem_append, or_assoc]

end NeverFox.Harness
