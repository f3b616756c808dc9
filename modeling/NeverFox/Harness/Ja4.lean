import Mathlib.Data.List.Nodup
import NeverFox.Harness.Gate

namespace NeverFox.Harness

-- Texts in another order are sorted into the same one.
theorem sorted_eq_of_perm {texts texts' : List String} (h : texts.Perm texts') :
    sorted texts = sorted texts' := by
  have hpairs : ∀ l : List String, (sorted l).Pairwise fun a b => decide (a ≤ b) = true := by
    apply List.pairwise_mergeSort
    · intro a b c hab hbc
      exact decide_eq_true (String.le_trans (of_decide_eq_true hab) (of_decide_eq_true hbc))
    · intro a b
      rw [Bool.or_eq_true, decide_eq_true_eq, decide_eq_true_eq]
      exact String.le_total a b
  apply List.Perm.eq_of_pairwise _ (hpairs texts) (hpairs texts')
  · exact (List.mergeSort_perm _ _).trans (h.trans (List.mergeSort_perm _ _).symm)
  · intro a b _ _ hab hba
    exact String.le_antisymm (of_decide_eq_true hab) (of_decide_eq_true hba)

def plain (values : List Nat) : List Nat := values.filter fun v => !isGrease v

-- All that JA4 looks at.
theorem ja4_congr {digests : Digests} {p q : Parsed} {prints prints' : Fingerprints}
    (hp : fingerprints digests p = .ok prints) (hq : fingerprints digests q = .ok prints')
    (hversion : p.legacyVersion = q.legacyVersion) (hdetails : p.details = q.details)
    (hciphers : (plain p.cipherSuites).Perm (plain q.cipherSuites))
    (hexts : (plain p.extensions).Perm (plain q.extensions)) : prints.ja4 = prints'.ja4 := by
  have hc := sorted_eq_of_perm (hciphers.map hex4)
  have he := sorted_eq_of_perm ((hexts.filter fun e => decide (e ≠ 0x0000 ∧ e ≠ 0x0010)).map hex4)
  have hnc := hciphers.length_eq
  have hne := hexts.length_eq
  unfold plain at hc he hnc hne
  unfold fingerprints at hp hq
  rw [hdetails] at hp
  cases hmark : alpnMark (q.details.alpn.getD []) with
  | error exn =>
      rw [hmark] at hp
      cases hp
  | ok a =>
      rw [hmark] at hp hq
      obtain rfl := Except.ok.inj hp
      obtain rfl := Except.ok.inj hq
      dsimp only
      rw [hversion, hnc, hne, hc, he]

-- Extensions of two types leave the same record in either order.
theorem record_comm {x y : Item} (h : x.extension.type ≠ y.extension.type) (d : Details) :
    y.record (x.record d) = x.record (y.record d) := by
  cases x <;> cases y <;> first
    | rfl
    | exact absurd rfl h

def Item.greased (item : Item) : Bool := isGrease item.extension.type

theorem record_greased {item : Item} (h : item.greased = true) (d : Details) : item.record d = d := by
  cases item with
  | other type body htype => rfl
  | encryptedClientHello payload => rfl
  | serverName | supportedGroups | ecPointFormats | signatureAlgorithms | alpn | compressCertificate
  | recordSizeLimit | supportedVersions | pskKeyExchangeModes | keyShare => cases h

theorem foldl_greased (items : List Item) (d : Details) :
    items.foldl Item.record d = (items.filter fun item => !item.greased).foldl Item.record d := by
  induction items generalizing d with
  | nil => rfl
  | cons item items ih =>
      cases h : item.greased with
      | true => rw [List.foldl_cons, record_greased h, List.filter_cons_of_neg (by simp [h]), ih]
      | false => rw [List.filter_cons_of_pos (by simp [h]), List.foldl_cons, List.foldl_cons, ih]

theorem details_unordered {xs ys : List Item}
    (hitems : (xs.filter fun item => !item.greased).Perm (ys.filter fun item => !item.greased))
    (hdistinct : ((xs.filter fun item => !item.greased).map fun item => item.extension.type).Nodup) :
    xs.foldl Item.record {} = ys.foldl Item.record {} := by
  rw [foldl_greased xs, foldl_greased ys]
  apply hitems.foldl_eq'
  intro x hx y hy d
  by_cases h : x.extension.type = y.extension.type
  · rw [List.inj_on_of_nodup_map hdistinct hx hy h]
  · exact record_comm h d

theorem plain_types (items : List Item) : plain ((items.map Item.extension).map Extension.type) =
    (items.filter fun item => !item.greased).map fun item => item.extension.type := by
  unfold plain
  rw [List.map_map, List.filter_map]
  rfl

theorem plain_suites (suites : List UInt16) : plain (suites.map UInt16.toNat) =
    (suites.filter fun suite => !isGrease suite.toNat).map UInt16.toNat := by
  unfold plain
  rw [List.filter_map]
  rfl

-- The JA4 of a client does not change with the order of its cipher suites and its
-- extensions, with GREASE among them, nor with what is free in its hello.
theorem ja4_unordered (digests : Digests) {a b : Hello} {xs ys : List Item}
    (hxs : a.blanked.extensions = xs.map Item.extension) (hys : b.blanked.extensions = ys.map Item.extension)
    (hversion : a.legacyVersion = b.legacyVersion)
    (hsuites : (a.cipherSuites.filter fun suite => !isGrease suite.toNat).Perm
      (b.cipherSuites.filter fun suite => !isGrease suite.toNat))
    (hitems : (xs.filter fun item => !item.greased).Perm (ys.filter fun item => !item.greased))
    (hdistinct : ((xs.filter fun item => !item.greased).map fun item => item.extension.type).Nodup) :
    ∃ p q prints prints', parseClientHello digests a.encode = .ok (p, prints) ∧
      parseClientHello digests b.encode = .ok (q, prints') ∧ prints.ja4 = prints'.ja4 := by
  obtain ⟨p, prints, hp, _⟩ := parse_hello digests a
  obtain ⟨q, prints', hq, _⟩ := parse_hello digests b
  refine ⟨p, q, prints, prints', hp, hq, ?_⟩
  obtain ⟨prints₁, hprints₁, hparse₁⟩ := parse_items digests hxs
  obtain ⟨prints₂, hprints₂, hparse₂⟩ := parse_items digests hys
  rw [parse_blanked hp] at hparse₁
  rw [parse_blanked hq] at hparse₂
  obtain rfl := (Prod.mk.inj (Except.ok.inj hparse₁)).2
  obtain rfl := (Prod.mk.inj (Except.ok.inj hparse₂)).2
  apply ja4_congr hprints₁ hprints₂
  · exact congrArg UInt16.toNat hversion
  · exact details_unordered hitems hdistinct
  · show (plain (a.cipherSuites.map UInt16.toNat)).Perm (plain (b.cipherSuites.map UInt16.toNat))
    rw [plain_suites, plain_suites]
    exact hsuites.map UInt16.toNat
  · show (plain (a.blanked.extensions.map Extension.type)).Perm
      (plain (b.blanked.extensions.map Extension.type))
    rw [hxs, hys, plain_types, plain_types]
    exact hitems.map fun item => item.extension.type

-- The same client twice, once with GREASE in front.
def orderedItems : List Item :=
  [.supportedVersions [0x0304] (by decide), .alpn [[104, 50]] (by decide)]

def greasedItems : List Item :=
  [.other 0x0a0a [] (by decide), .alpn [[104, 50]] (by decide), .supportedVersions [0x0304] (by decide)]

def helloOf (suites : List UInt16) (items : List Item) (hsuites : 2 * suites.length < 2 ^ 16)
    (hitems : (Masking.flat ((items.map Item.extension).flatMap Extension.fields)).length < 2 ^ 16) :
    Hello where
  legacyVersion := 0x0303
  random := List.replicate 32 9
  sessionId := []
  cipherSuites := suites
  compression := [0]
  extensions := items.map Item.extension
  randomLength := List.length_replicate
  sessionIdFits := by decide
  suitesFit := hsuites
  compressionFits := by decide
  extensionsFit := hitems

theorem ja4_unordered_greased : ∃ p q prints prints',
    parseClientHello verbatim (helloOf [0x1301, 0x1302] orderedItems (by decide) (by decide)).encode =
      .ok (p, prints) ∧
    parseClientHello verbatim (helloOf [0x2a2a, 0x1302, 0x1301] greasedItems (by decide) (by decide)).encode =
      .ok (q, prints') ∧ prints.ja4 = prints'.ja4 := by
  have hordered : (orderedItems.filter fun item => !item.greased) = orderedItems := rfl
  have hgreased : (greasedItems.filter fun item => !item.greased) = greasedItems.tail := rfl
  have hsuites : ([0x1301, 0x1302].filter fun suite : UInt16 => !isGrease suite.toNat).Perm
      ([0x2a2a, 0x1302, 0x1301].filter fun suite : UInt16 => !isGrease suite.toNat) := by decide
  refine @ja4_unordered verbatim _ _ orderedItems greasedItems rfl rfl rfl hsuites ?_ (by decide)
  rw [hordered, hgreased]
  exact List.Perm.swap _ _ []

end NeverFox.Harness
