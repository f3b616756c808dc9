import NeverFox.Basic
import NeverFox.Lib.Segments
import Mathlib.Data.List.TakeWhile

namespace NeverFox.Native

-- A C string, without the NUL that ends it.
structure CString where
  bytes : Bytes
  noNul : (0 : UInt8) ∉ bytes

-- What C sees of the octets that ctypes passes as a `c_char_p`.
def CString.ofBytes (data : Bytes) : CString where
  bytes := data.takeWhile (· ≠ 0)
  noNul h := by simpa using List.mem_takeWhile_imp h

-- A size_t turned into an int, of 32 bits.
def toInt (n : Nat) : Int :=
  if n % 4294967296 < 2147483648 then (n % 4294967296 : Nat) else (n % 4294967296 : Nat) - 4294967296

def CString.strlen (s : CString) : Int := toInt s.bytes.length

-- (unsigned char)
def uchar (x : Int) : UInt8 := UInt8.ofNat (x % 256).toNat

-- A connected socket: what the peer sends and how it is cut into reads, which
-- writes go through, and what the writes were given.
structure Socket where
  feed : Feed UInt8
  accepts : Nat → Bool
  sent : List Bytes := []

namespace Socket

-- PR_Write of a buffer's first octets, whole or not at all: PR_Write(...) == n.
def write (s : Socket) (message : Bytes) : Bool × Socket :=
  (s.accepts 0, { s with accepts := fun i => s.accepts (i + 1), sent := s.sent ++ [message] })

-- PR_Recv: nothing at the end of the stream, on an error and on a timeout.
def recv (s : Socket) (n : Nat) : Bytes × Socket :=
  let (data, feed) := s.feed.read n
  (data, { s with feed := feed })

end Socket

-- A local array and how much of it has been filled, from its start.
structure Buffer (size : Nat) where
  bytes : Bytes
  fits : bytes.length ≤ size

namespace Buffer

variable {size : Nat}

def empty : Buffer size := ⟨[], Nat.zero_le _⟩

-- `b[k++] = v`. The index must be one of the array's.
def put (b : Buffer size) (v : UInt8) : Option (Buffer size) :=
  if h : b.bytes.length < size then some ⟨b.bytes ++ [v], by simpa using Nat.succ_le_of_lt h⟩ else none

-- `memcpy(b+k, src, len); k += len`, octet by octet. A negative length is a
-- size_t beyond every array.
def copy (b : Buffer size) (src : Bytes) (len : Int) : Option (Buffer size) :=
  if len < 0 then none else (src.take len.toNat).foldlM put b

theorem put_eq_some {b b' : Buffer size} {v : UInt8} :
    b.put v = some b' ↔ b.bytes.length < size ∧ b'.bytes = b.bytes ++ [v] := by
  unfold put
  split
  · rename_i h
    simp only [Option.some.injEq, h, true_and]
    constructor
    · rintro rfl
      rfl
    · intro hb
      cases b'
      simp_all
  · rename_i h
    simp [h]

theorem foldlM_put {b b' : Buffer size} {src : Bytes} :
    src.foldlM put b = some b' ↔ b.bytes.length + src.length ≤ size ∧ b'.bytes = b.bytes ++ src := by
  induction src generalizing b with
  | nil =>
      have hfits := b.fits
      cases b
      cases b'
      simp_all [eq_comm]
  | cons v src ih =>
      simp only [List.foldlM_cons, Option.bind_eq_bind, Option.bind_eq_some_iff, put_eq_some, ih,
        List.length_cons]
      constructor
      · rintro ⟨next, ⟨hlt, hnext⟩, hle, hb'⟩
        rw [hnext, List.length_append, List.length_singleton] at hle
        exact ⟨by omega, by simp [hb', hnext]⟩
      · rintro ⟨hle, hb'⟩
        refine ⟨⟨b.bytes ++ [v], by simp only [List.length_append, List.length_singleton]; omega⟩,
          ⟨by omega, rfl⟩, ?_, by simp [hb']⟩
        simp only [List.length_append, List.length_singleton]
        omega

theorem foldlM_put_empty {b : Buffer size} {src : Bytes} :
    src.foldlM put empty = some b ↔ src.length ≤ size ∧ b.bytes = src := by
  rw [foldlM_put]
  simp only [empty, List.length_nil, Nat.zero_add, List.nil_append]

theorem copy_nonneg {b : Buffer size} {src : Bytes} {len : Int} (h : 0 ≤ len) :
    b.copy src len = (src.take len.toNat).foldlM put b := by
  rw [copy, if_neg (by omega)]

theorem copy_neg {b : Buffer size} {src : Bytes} {len : Int} (h : len < 0) : b.copy src len = none := by
  rw [copy, if_pos h]

end Buffer

theorem toInt_small {n : Nat} (h : n < 2147483648) : toInt n = n := by
  have hmod : n % 4294967296 = n := Nat.mod_eq_of_lt (by omega)
  rw [toInt, hmod, if_pos h]

end NeverFox.Native
