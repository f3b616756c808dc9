import Mathlib.Algebra.Order.Ring.Nat
import Mathlib.Data.List.Basic

-- UTF-8 as `str.encode` writes it and `bytes.decode` reads it.
namespace Utf8

def encode (text : List Char) : List UInt8 := text.flatMap String.utf8EncodeChar

-- The character that the octets begin with.
def head? (bytes : List UInt8) : Option Char := ByteArray.utf8DecodeChar? bytes.toByteArray 0

-- For a first octet: how many follow it, and the range of the next one.
def lead (b : UInt8) : Nat × UInt8 × UInt8 :=
  if 0xc2 ≤ b ∧ b ≤ 0xdf then (1, 0x80, 0xbf)
  else if b = 0xe0 then (2, 0xa0, 0xbf)
  else if b = 0xed then (2, 0x80, 0x9f)
  else if 0xe1 ≤ b ∧ b ≤ 0xef then (2, 0x80, 0xbf)
  else if b = 0xf0 then (3, 0x90, 0xbf)
  else if 0xf1 ≤ b ∧ b ≤ 0xf3 then (3, 0x80, 0xbf)
  else if b = 0xf4 then (3, 0x80, 0x8f)
  else (0, 0, 0)

-- How many octets one replacement character stands for, where no character
-- begins: as many as could still have begun one.
def malformed : List UInt8 → Nat
  | first :: second :: rest =>
      let (tails, low, high) := lead first
      if 0 < tails ∧ low ≤ second ∧ second ≤ high then
        2 + ((rest.take (tails - 2)).takeWhile fun b => 0x80 ≤ b && b ≤ 0xbf).length
      else 1
  | _ => 1

-- The characters in turn, `none` for what is malformed. The fuel is the length.
def pieces : Nat → List UInt8 → List (Option Char)
  | 0, _ => []
  | _ + 1, [] => []
  | fuel + 1, b :: rest =>
      match head? (b :: rest) with
      | some c => some c :: pieces fuel ((b :: rest).drop c.utf8Size)
      | none => none :: pieces fuel ((b :: rest).drop (malformed (b :: rest)))

def decode? (bytes : List UInt8) : Option (List Char) := (pieces bytes.length bytes).mapM id

-- With errors="replace".
def decodeReplace (bytes : List UInt8) : List Char :=
  (pieces bytes.length bytes).map fun piece => piece.getD (Char.ofNat 0xfffd)

theorem head?_encodeChar (c : Char) (rest : List UInt8) :
    head? (String.utf8EncodeChar c ++ rest) = some c := by
  rw [head?, List.toByteArray_append]
  exact ByteArray.utf8DecodeChar?_utf8EncodeChar_append

theorem eq_of_head? {bytes : List UInt8} {c : Char} (h : head? bytes = some c) :
    bytes = String.utf8EncodeChar c ++ bytes.drop c.utf8Size := by
  obtain ⟨tail, htail⟩ := ByteArray.exists_of_utf8DecodeChar?_eq_some h
  have hbytes : bytes = String.utf8EncodeChar c ++ tail.data.toList := by
    have hdata := congrArg (fun b : ByteArray => b.data.toList) htail
    simpa using hdata
  rw [hbytes, ← String.length_utf8EncodeChar, List.drop_left]

theorem encodeChar_ne_nil (c : Char) : String.utf8EncodeChar c ≠ [] := by
  intro h
  have hsize := c.utf8Size_pos
  rw [← String.length_utf8EncodeChar, h] at hsize
  exact Nat.lt_irrefl 0 hsize

@[simp] theorem encode_nil : encode [] = [] := rfl

@[simp] theorem encode_cons (c : Char) (text : List Char) :
    encode (c :: text) = String.utf8EncodeChar c ++ encode text := rfl

@[simp] theorem encode_append (text text' : List Char) :
    encode (text ++ text') = encode text ++ encode text' :=
  List.flatMap_append

theorem pieces_encode {fuel : Nat} {text : List Char} (hfuel : (encode text).length ≤ fuel) :
    pieces fuel (encode text) = text.map some := by
  induction text generalizing fuel with
  | nil => cases fuel <;> rfl
  | cons c text ih =>
      have hsize := c.utf8Size_pos
      rw [encode_cons, List.length_append, String.length_utf8EncodeChar] at hfuel
      obtain ⟨fuel, rfl⟩ : ∃ n, fuel = n + 1 := ⟨fuel - 1, by omega⟩
      have hhead := head?_encodeChar c (encode text)
      rw [encode_cons]
      cases hc : String.utf8EncodeChar c ++ encode text with
      | nil => exact absurd (List.append_eq_nil_iff.mp hc).1 (encodeChar_ne_nil c)
      | cons b rest =>
          rw [hc] at hhead
          rw [pieces, hhead]
          dsimp only
          rw [← hc, ← String.length_utf8EncodeChar, List.drop_left, ih (by omega), List.map_cons]

theorem eq_encode_of_pieces {fuel : Nat} {bytes : List UInt8} {text : List Char} (hfuel : bytes.length ≤ fuel)
    (h : pieces fuel bytes = text.map some) : bytes = encode text := by
  induction fuel generalizing bytes text with
  | zero =>
      obtain rfl : bytes = [] := List.eq_nil_of_length_eq_zero (by omega)
      cases text with
      | nil => rfl
      | cons c text => cases h
  | succ fuel ih =>
      cases bytes with
      | nil =>
          cases text with
          | nil => rfl
          | cons c text => cases h
      | cons b rest =>
          unfold pieces at h
          cases hhead : head? (b :: rest) with
          | none =>
              rw [hhead] at h
              cases text <;> cases h
          | some c =>
              rw [hhead] at h
              cases text with
              | nil => cases h
              | cons d text =>
                  dsimp only at h
                  rw [List.map_cons] at h
                  obtain ⟨hcd, hrest⟩ := List.cons.inj h
                  obtain rfl := Option.some.inj hcd
                  have hsize := c.utf8Size_pos
                  have hlen : ((b :: rest).drop c.utf8Size).length ≤ fuel := by
                    rw [List.length_drop]
                    omega
                  rw [encode_cons, ← ih hlen hrest]
                  exact eq_of_head? hhead

theorem mapM_id_eq_some {pieces : List (Option Char)} {text : List Char} :
    pieces.mapM id = some text ↔ pieces = text.map some := by
  induction pieces generalizing text with
  | nil => cases text <;> simp
  | cons piece pieces ih =>
      rw [List.mapM_cons]
      cases text with
      | nil => cases piece <;> simp [Option.bind_eq_some_iff]
      | cons c text =>
          cases piece with
          | none => simp
          | some d => simp [Option.bind_eq_some_iff, ih, and_comm]

theorem decode?_eq_some {bytes : List UInt8} {text : List Char} :
    decode? bytes = some text ↔ bytes = encode text := by
  unfold decode?
  rw [mapM_id_eq_some]
  constructor
  · exact eq_encode_of_pieces (Nat.le_refl _)
  · rintro rfl
    exact pieces_encode (Nat.le_refl _)

@[simp] theorem decode?_encode (text : List Char) : decode? (encode text) = some text :=
  decode?_eq_some.mpr rfl

@[simp] theorem decodeReplace_encode (text : List Char) : decodeReplace (encode text) = text := by
  unfold decodeReplace
  rw [pieces_encode (Nat.le_refl _), List.map_map]
  exact List.map_id text

-- What replacing leaves stands for the octets just if there was nothing to replace.
theorem encode_decodeReplace {bytes : List UInt8} :
    encode (decodeReplace bytes) = bytes ↔ (decode? bytes).isSome = true := by
  constructor
  · intro h
    rw [decode?_eq_some.mpr h.symm]
    rfl
  · intro h
    obtain ⟨text, htext⟩ := Option.isSome_iff_exists.mp h
    rw [decode?_eq_some.mp htext, decodeReplace_encode]

end Utf8
