import NeverFox.Basic
import Mathlib.Data.List.Basic

namespace NeverFox.Http1

def CR : UInt8 := 13
def LF : UInt8 := 10
def crlf : Bytes := [CR, LF]

-- `buf.find(b"\r\n")`: what stands before the first line end, and behind it.
def splitLine : Bytes → Option (Bytes × Bytes)
  | a :: b :: rest =>
      if a = CR ∧ b = LF then some ([], rest)
      else (splitLine (b :: rest)).map fun line => (a :: line.1, line.2)
  | _ => none

-- `_Reader`: the octets buffered, and what each recv to come will return. An
-- empty result is an end of file or a wait given up, and recv returns nothing
-- else once the list is used up.
structure Reader where
  results : List Bytes
  buf : Bytes := []

namespace Reader

def readlineLoop (buf : Bytes) (results : List Bytes) : Bytes × Reader :=
  match splitLine buf with
  | some (line, rest) => (line, ⟨results, rest⟩)
  | none =>
      match results with
      | [] => (buf, ⟨[], []⟩)
      | [] :: results => (buf, ⟨results, []⟩)
      | data :: results => readlineLoop (buf ++ data) results

def readline (r : Reader) : Bytes × Reader := readlineLoop r.buf r.results

-- A slice end below zero counts from the end of the buffer.
def sliceEnd (n : Int) (length : Nat) : Nat := if n < 0 then (length + n).toNat else n.toNat

def cut (n : Int) (buf : Bytes) (results : List Bytes) : Bytes × Reader :=
  (buf.take (sliceEnd n buf.length), ⟨results, buf.drop (sliceEnd n buf.length)⟩)

def readexactLoop (n : Int) (buf : Bytes) (results : List Bytes) : Bytes × Reader :=
  if n ≤ buf.length then cut n buf results
  else
    match results with
    | [] => cut n buf []
    | [] :: results => cut n buf results
    | data :: results => readexactLoop n (buf ++ data) results

def readexact (r : Reader) (n : Int) : Bytes × Reader := readexactLoop n r.buf r.results

def readallLoop (buf : Bytes) : List Bytes → Bytes × Reader
  | [] => (buf, ⟨[], []⟩)
  | [] :: results => (buf, ⟨results, []⟩)
  | data :: results => readallLoop (buf ++ data) results

def readall (r : Reader) : Bytes × Reader := readallLoop r.buf r.results

-- The octets that come before recv next returns nothing.
def received (r : Reader) : Bytes := r.buf ++ (r.results.takeWhile (· ≠ [])).flatten

-- All octets the reader can still see.
def size (r : Reader) : Nat := r.buf.length + r.results.flatten.length

end Reader

theorem splitLine_append (bytes more line rest : Bytes) (hs : splitLine bytes = some (line, rest)) :
    splitLine (bytes ++ more) = some (line, rest ++ more) := by
  induction bytes generalizing line with
  | nil => simp [splitLine] at hs
  | cons a tail ih =>
      cases tail with
      | nil => simp [splitLine] at hs
      | cons b tail =>
          simp only [List.cons_append]
          unfold splitLine at hs ⊢
          split at hs
          · rename_i heol
            obtain ⟨rfl, rfl⟩ := Prod.mk.inj (Option.some.inj hs)
            simp [heol]
          · rename_i heol
            obtain ⟨⟨line', rest'⟩, ht, he⟩ := Option.map_eq_some_iff.mp hs
            obtain ⟨rfl, rfl⟩ := Prod.mk.inj he
            have hmore := ih line' ht
            simp only [List.cons_append] at hmore
            simp [heol, hmore]

theorem splitLine_length (bytes line rest : Bytes) (hs : splitLine bytes = some (line, rest)) :
    bytes.length = line.length + 2 + rest.length := by
  induction bytes generalizing line with
  | nil => simp [splitLine] at hs
  | cons a tail ih =>
      cases tail with
      | nil => simp [splitLine] at hs
      | cons b tail =>
          unfold splitLine at hs
          split at hs
          · obtain ⟨rfl, rfl⟩ := Prod.mk.inj (Option.some.inj hs)
            simp only [List.length_cons, List.length_nil]
            omega
          · obtain ⟨⟨line', rest'⟩, ht, he⟩ := Option.map_eq_some_iff.mp hs
            obtain ⟨rfl, rfl⟩ := Prod.mk.inj he
            have hlen := ih line' ht
            simp only [List.length_cons] at hlen ⊢
            omega

namespace Reader

theorem received_cons (data buf : Bytes) (results : List Bytes) (hne : data ≠ []) :
    received ⟨data :: results, buf⟩ = received ⟨results, buf ++ data⟩ := by
  have hd : (data :: results).takeWhile (· ≠ []) = data :: results.takeWhile (· ≠ []) :=
    List.takeWhile_cons_of_pos (by simpa using hne)
  simp only [received, hd, List.flatten_cons, List.append_assoc]

-- A line that ends in what is received is read whole, however recv cuts it up.
theorem readline_of_split (r : Reader) (line rest : Bytes)
    (hs : splitLine r.received = some (line, rest)) :
    r.readline.1 = line ∧ r.readline.2.received = rest := by
  obtain ⟨results, buf⟩ := r
  unfold readline
  dsimp only
  fun_induction readlineLoop buf results with
  | case1 results buf line' rest' hb =>
      have hmore := splitLine_append buf (results.takeWhile (· ≠ [])).flatten line' rest' hb
      rw [received] at hs
      obtain ⟨rfl, rfl⟩ := Prod.mk.inj (Option.some.inj (hs.symm.trans hmore))
      exact ⟨rfl, rfl⟩
  | case2 buf hb =>
      simp [received, hb] at hs
  | case3 buf hb results =>
      simp [received, hb] at hs
  | case4 buf hb data results hne ih =>
      rw [received_cons data buf results hne] at hs
      exact ih hs

theorem readexact_of_le (r : Reader) (n : Nat) (hn : n ≤ r.received.length) :
    (r.readexact n).1 = r.received.take n ∧ (r.readexact n).2.received = r.received.drop n := by
  obtain ⟨results, buf⟩ := r
  unfold readexact
  dsimp only
  have hcut : ∀ (buf : Bytes) (results : List Bytes), n ≤ buf.length →
      (cut n buf results).1 = (Reader.received ⟨results, buf⟩).take n ∧
        (cut n buf results).2.received = (Reader.received ⟨results, buf⟩).drop n := by
    intro buf results hle
    have hneg : ¬(n : Int) < 0 := by omega
    have hend : sliceEnd n buf.length = n := by simp [sliceEnd, hneg]
    simp only [cut, received, hend]
    exact ⟨(List.take_append_of_le_length hle).symm, (List.drop_append_of_le_length hle).symm⟩
  fun_induction readexactLoop (n : Int) buf results with
  | case1 results buf hle => exact hcut buf results (by omega)
  | case2 buf hgt => simp [received] at hn; omega
  | case3 buf hgt results => simp [received] at hn; omega
  | case4 buf hgt data results hne ih =>
      rw [received_cons data buf results hne] at hn ⊢
      exact ih hn

theorem readall_eq (r : Reader) : r.readall.1 = r.received := by
  obtain ⟨results, buf⟩ := r
  unfold readall
  dsimp only
  fun_induction readallLoop buf results with
  | case1 buf => simp [received]
  | case2 buf results => simp [received]
  | case3 buf data results hne ih => rw [ih, received_cons data buf results hne]

-- What a read returns is gone from the reader.
theorem size_readline (r : Reader) : r.readline.1.length + r.readline.2.size ≤ r.size := by
  obtain ⟨results, buf⟩ := r
  unfold readline
  dsimp only
  fun_induction readlineLoop buf results with
  | case1 results buf line rest hb =>
      have hlen := splitLine_length buf line rest hb
      simp only [size]
      omega
  | case2 buf hb => simp [size]
  | case3 buf hb results => simp [size]
  | case4 buf hb data results hne ih =>
      simp only [size, List.length_append, List.flatten_cons] at ih ⊢
      omega

theorem size_readexact (r : Reader) (n : Int) : (r.readexact n).2.size ≤ r.size := by
  obtain ⟨results, buf⟩ := r
  unfold readexact
  dsimp only
  have hcut : ∀ (buf : Bytes) (results : List Bytes),
      (cut n buf results).2.size ≤ buf.length + results.flatten.length := by
    intro buf results
    simp only [cut, size, List.length_drop]
    omega
  fun_induction readexactLoop n buf results with
  | case1 results buf hle => exact hcut buf results
  | case2 buf hgt => exact hcut buf []
  | case3 buf hgt results =>
      have h := hcut buf results
      simpa [size] using h
  | case4 buf hgt data results hne ih =>
      simp only [size, List.length_append, List.flatten_cons] at ih ⊢
      omega

end Reader

end NeverFox.Http1
