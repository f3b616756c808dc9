import NeverFox.Client.Response

namespace NeverFox.Client

-- What one compressed stream at the front of a body is: complete, with what
-- follows it; broken off; or in error, with what a call can put out and not meet
-- the error.
inductive Member
  | complete (out rest : Bytes)
  | truncated (out : Bytes)
  | corrupt (out : Bytes)
  deriving DecidableEq

namespace Member

-- The output of a stream that zlib takes without an error.
def out? : Member → Option Bytes
  | .complete out _ | .truncated out => some out
  | .corrupt _ => none

-- How much output there is, up to the error if there is one.
def most : Member → Nat
  | .complete out _ | .truncated out | .corrupt out => out.length

-- Taken without an error, though the stream does not end with the body.
def Loose (m : Member) (out : Bytes) : Prop :=
  m = .truncated out ∨ ∃ rest, rest ≠ [] ∧ m = .complete out rest

def Exceeds (limit : Nat) (m : Member) : Prop := limit ≠ 0 ∧ limit < m.most

instance (limit : Nat) (m : Member) : Decidable (m.Exceeds limit) :=
  inferInstanceAs (Decidable (limit ≠ 0 ∧ limit < m.most))

-- What decoding it under a limit comes to.
def result (limit : Nat) (m : Member) : Except Exn Bytes :=
  if m.Exceeds limit then .error (decodedTooLong limit)
  else match m.out? with
    | some out => .ok out
    | none => .error .zlibError

end Member

-- What zlib is documented to do, for a reading of streams by window bits: stop at
-- the end of the stream, be silent about a stream that is broken off, put out no
-- more than it is asked for and keep the input it did not need for that.
structure Codecs.Reads (codecs : Codecs) (member : Int → Bytes → Member) : Prop where
  whole : ∀ wbits body out, (member wbits body).out? = some out →
    codecs.zlib wbits body none = .ok ⟨out, false, .ok []⟩
  error : ∀ wbits body out, member wbits body = .corrupt out →
    codecs.zlib wbits body none = .error .zlibError
  limited : ∀ wbits body out n, (member wbits body).out? = some out → 0 < n →
    ∃ d rest, codecs.zlib wbits body (some n) = .ok d ∧ d.flush = .ok rest ∧ d.out ++ rest = out ∧
      d.out.length ≤ n ∧ (d.unconsumed → d.out.length = n)
  early : ∀ wbits body out n, member wbits body = .corrupt out → 0 < n → n ≤ out.length →
    ∃ d, codecs.zlib wbits body (some n) = .ok d ∧ d.out.length = n
  late : ∀ wbits body out n, member wbits body = .corrupt out → out.length < n →
    codecs.zlib wbits body (some n) = .error .zlibError

inductive Coding
  | gzip
  | deflate
  deriving DecidableEq

-- RFC 1952: the members of a body one behind the other, to its end.
inductive GzipDecodes (read : Bytes → Member) : Bytes → Bytes → Prop
  | last {body out : Bytes} (h : read body = .complete out []) : GzipDecodes read body out
  | more {body out rest tail : Bytes} (h : read body = .complete out rest) (hrest : rest ≠ [])
      (htail : GzipDecodes read rest tail) : GzipDecodes read body (out ++ tail)

namespace Coding

def name : Coding → String
  | .gzip => "gzip"
  | .deflate => "deflate"

-- The window bits of the readings that the coding allows.
def readings : Coding → List Int
  | .gzip => [16 + MAX_WBITS]
  | .deflate => [MAX_WBITS, -MAX_WBITS]

-- The whole body decodes to an output: deflate is a zlib stream or a raw one.
def Decodes (member : Int → Bytes → Member) : Coding → Bytes → Bytes → Prop
  | .gzip, body, out => GzipDecodes (member (16 + MAX_WBITS)) body out
  | .deflate, body, out =>
      member MAX_WBITS body = .complete out [] ∨ member (-MAX_WBITS) body = .complete out []

end Coding

variable (member : Int → Bytes → Member)

-- The body's decoding, or the body if it has none, or an error if what there is to
-- decode is longer than a limit.
def Faithful (coding : Coding) (limit : Nat) (body : Bytes) : Except Exn Bytes → Prop
  | .ok out => coding.Decodes member body out ∨ (∀ x, ¬coding.Decodes member body x) ∧ out = body
  | .error exc => exc = decodedTooLong limit ∧ limit ≠ 0 ∧
      ((∃ x, coding.Decodes member body x ∧ limit < x.length) ∨
        (∀ x, ¬coding.Decodes member body x) ∧
          ∃ wbits ∈ coding.readings, limit < (member wbits body).most)

-- A stream that is taken though the body goes on behind it, or that is broken
-- off, is harmless over the limit; if what follows are empty members; or if
-- nothing decodes and the output happens to be the body.
def GzipCovered (limit : Nat) (body : Bytes) : Prop :=
  let read := member (16 + MAX_WBITS)
  (∀ out, read body = .truncated out → (read body).Exceeds limit ∨ out = body) ∧
    ∀ out rest, read body = .complete out rest → rest ≠ [] → (read body).Exceeds limit ∨
      GzipDecodes read rest [] ∨ (∀ x, ¬GzipDecodes read rest x) ∧ out = body

-- For deflate the zlib reading has to be in error before the raw one counts. It
-- must not be taken for a stream that it is not, nor pass the limit when the raw
-- stream does not.
structure DeflateCovered (limit : Nat) (body : Bytes) : Prop where
  zlib : ∀ out, (member MAX_WBITS body).Loose out → ¬(member MAX_WBITS body).Exceeds limit →
    member (-MAX_WBITS) body = .complete out [] ∨
      (∀ x, member (-MAX_WBITS) body ≠ .complete x []) ∧ out = body
  cap : (∀ x, member MAX_WBITS body ≠ .complete x []) → (member MAX_WBITS body).Exceeds limit →
    ∀ x, member (-MAX_WBITS) body = .complete x [] → limit < x.length
  raw : (member MAX_WBITS body).out? = none → ¬(member MAX_WBITS body).Exceeds limit →
    ∀ out, (member (-MAX_WBITS) body).Loose out → (member (-MAX_WBITS) body).Exceeds limit ∨ out = body

def Coding.Covered : Coding → Nat → Bytes → Prop
  | .gzip => GzipCovered member
  | .deflate => DeflateCovered member

variable {member}

namespace Member

theorem result_long {limit : Nat} {m : Member} (h : m.Exceeds limit) :
    m.result limit = .error (decodedTooLong limit) := if_pos h

theorem result_taken {limit : Nat} {m : Member} {out : Bytes} (h : ¬m.Exceeds limit)
    (hout : m.out? = some out) : m.result limit = .ok out := by
  rw [result, if_neg h, hout]

theorem result_error {limit : Nat} {m : Member} (h : ¬m.Exceeds limit) (hout : m.out? = none) :
    m.result limit = .error .zlibError := by
  rw [result, if_neg h, hout]

theorem most_of_out? {m : Member} {out : Bytes} (h : m.out? = some out) : m.most = out.length := by
  cases m with
  | complete out rest => rw [← Option.some.inj h]; rfl
  | truncated out => rw [← Option.some.inj h]; rfl
  | corrupt out => cases h

theorem corrupt_of_out? {m : Member} (h : m.out? = none) : ∃ out, m = .corrupt out := by
  cases m with
  | complete out rest => cases h
  | truncated out => cases h
  | corrupt out => exact ⟨out, rfl⟩

theorem not_exceeds_zero (m : Member) : ¬m.Exceeds 0 := fun h => h.1 rfl

theorem exceeds_iff {limit : Nat} {m : Member} (hl : limit ≠ 0) : m.Exceeds limit ↔ limit < m.most :=
  and_iff_right hl

end Member

-- Without a limit, and with one, what the stream is decides the result.
theorem boundedZlib_unlimited {codecs : Codecs} (h : codecs.Reads member) (body : Bytes) (wbits : Int) :
    boundedZlib codecs body wbits 0 = (member wbits body).result 0 := by
  unfold boundedZlib
  rw [if_pos rfl]
  cases hout : (member wbits body).out? with
  | some out =>
      rw [h.whole wbits body out hout, Member.result_taken (Member.not_exceeds_zero _) hout]
      simp [bind, Except.bind, pure, Except.pure]
  | none =>
      obtain ⟨out, hm⟩ := Member.corrupt_of_out? hout
      rw [h.error wbits body out hm, Member.result_error (Member.not_exceeds_zero _) hout]
      rfl

theorem boundedZlib_eq {codecs : Codecs} (h : codecs.Reads member) (body : Bytes) (wbits : Int)
    (limit : Nat) : boundedZlib codecs body wbits limit = (member wbits body).result limit := by
  by_cases hl : limit = 0
  · subst hl
    exact boundedZlib_unlimited h body wbits
  unfold boundedZlib
  rw [if_neg hl]
  cases hout : (member wbits body).out? with
  | some out =>
      have hmost := Member.most_of_out? hout
      obtain ⟨d, rest, hd, hflush, hjoin, hle, hfull⟩ := h.limited wbits body out (limit + 1) hout (by omega)
      have hlen : d.out.length + rest.length = out.length := by rw [← hjoin, List.length_append]
      rw [hd]
      dsimp only [bind, Except.bind]
      by_cases hover : limit < d.out.length ∨ d.unconsumed = true
      · have hlong : limit < out.length := by
          rcases hover with hover | hover
          · omega
          · have := hfull hover
            omega
        rw [if_pos hover, Member.result_long ((Member.exceeds_iff hl).mpr (by rwa [hmost]))]
        rfl
      · rw [if_neg hover, hflush]
        dsimp only [pure, Except.pure]
        rw [hjoin]
        by_cases hlong : limit < out.length
        · rw [if_pos hlong, Member.result_long ((Member.exceeds_iff hl).mpr (by rwa [hmost]))]
          rfl
        · have hfits : ¬(member wbits body).Exceeds limit := by
            rw [Member.exceeds_iff hl, hmost]
            exact hlong
          rw [if_neg hlong, Member.result_taken hfits hout]
  | none =>
      obtain ⟨out, hm⟩ := Member.corrupt_of_out? hout
      have hmost : (member wbits body).most = out.length := by rw [hm]; rfl
      by_cases hlong : limit < out.length
      · obtain ⟨d, hd, hlen⟩ := h.early wbits body out (limit + 1) hm (by omega) (by omega)
        rw [hd, Member.result_long ((Member.exceeds_iff hl).mpr (by rwa [hmost]))]
        dsimp only [bind, Except.bind]
        rw [if_pos (.inl (by omega))]
        rfl
      · have hfits : ¬(member wbits body).Exceeds limit := by
          rw [Member.exceeds_iff hl, hmost]
          exact hlong
        rw [h.late wbits body out (limit + 1) hm (by omega), Member.result_error hfits hout]
        rfl

-- What `_decompress` makes of a decoder's result.
def salvaged (body : Bytes) : Except Exn Bytes → Except Exn Bytes
  | .error (.httpError message) => .error (.httpError message)
  | .error _ => .ok body
  | .ok out => .ok out

theorem decompress_gzip {codecs : Codecs} (h : codecs.Reads member) {enc : String}
    (henc : PyText.lower enc = "gzip") (body : Bytes) (limit : Nat) :
    decompress codecs body (some enc) limit =
      salvaged body ((member (16 + MAX_WBITS) body).result limit) := by
  unfold decompress
  rw [Option.getD_some, henc, ← boundedZlib_eq h]
  rfl

-- The raw reading is tried when the zlib one is in error.
theorem decompress_deflate {codecs : Codecs} (h : codecs.Reads member) {enc : String}
    (henc : PyText.lower enc = "deflate") (body : Bytes) (limit : Nat) :
    decompress codecs body (some enc) limit =
      salvaged body (if (member MAX_WBITS body).out? = none ∧ ¬(member MAX_WBITS body).Exceeds limit
        then (member (-MAX_WBITS) body).result limit else (member MAX_WBITS body).result limit) := by
  have hfirst : ("deflate" : String) ≠ "gzip" := by decide
  have hsame : decompress codecs body (some enc) limit =
      salvaged body (decoded codecs body "deflate" limit) := by
    unfold decompress
    rw [Option.getD_some, henc]
    rfl
  rw [hsame, decoded, if_neg hfirst, if_pos rfl, boundedZlib_eq h, boundedZlib_eq h]
  congr 1
  by_cases hlong : (member MAX_WBITS body).Exceeds limit
  · rw [if_neg fun hc => hc.2 hlong, Member.result_long hlong]
    rfl
  · cases hout : (member MAX_WBITS body).out? with
    | none => rw [if_pos ⟨rfl, hlong⟩, Member.result_error hlong hout]
    | some out => rw [if_neg (by simp), Member.result_taken hlong hout]

theorem gzipDecodes_last {read : Bytes → Member} {body out : Bytes} (h : read body = .complete out [])
    (x : Bytes) : GzipDecodes read body x ↔ x = out := by
  constructor
  · intro hx
    cases hx with
    | last hread =>
        rw [h] at hread
        exact (Member.complete.inj hread).1.symm
    | more hread hrest _ =>
        rw [h] at hread
        exact absurd (Member.complete.inj hread).2.symm hrest
  · rintro rfl
    exact .last h

theorem gzipDecodes_more {read : Bytes → Member} {body out rest : Bytes}
    (h : read body = .complete out rest) (hrest : rest ≠ []) (x : Bytes) :
    GzipDecodes read body x ↔ ∃ tail, GzipDecodes read rest tail ∧ x = out ++ tail := by
  constructor
  · intro hx
    cases hx with
    | last hread =>
        rw [h] at hread
        exact absurd (Member.complete.inj hread).2 hrest
    | more hread _ htail =>
        rw [h] at hread
        obtain ⟨rfl, rfl⟩ := Member.complete.inj hread
        exact ⟨_, htail, rfl⟩
  · rintro ⟨tail, htail, rfl⟩
    exact .more h hrest htail

theorem not_gzipDecodes {read : Bytes → Member} {body : Bytes}
    (h : ∀ out rest, read body ≠ .complete out rest) (x : Bytes) : ¬GzipDecodes read body x := by
  intro hx
  cases hx with
  | last hread => exact h _ _ hread
  | more hread _ _ => exact h _ _ hread

-- A result over the limit is a decoding over the limit.
theorem faithful_gzip_long {limit : Nat} {body : Bytes} (h : (member (16 + MAX_WBITS) body).Exceeds limit) :
    Faithful member .gzip limit body (.error (decodedTooLong limit)) := by
  refine ⟨rfl, h.1, ?_⟩
  by_cases hd : ∃ x, Coding.gzip.Decodes member body x
  · obtain ⟨x, hx⟩ := hd
    refine .inl ⟨x, hx, ?_⟩
    have hlong := h.2
    cases hx with
    | last hread =>
        rw [hread] at hlong
        exact hlong
    | more hread _ _ =>
        rw [hread] at hlong
        rw [List.length_append]
        exact Nat.lt_add_right _ hlong
  · exact .inr ⟨fun x hx => hd ⟨x, hx⟩, 16 + MAX_WBITS, List.mem_singleton_self _, h.2⟩

theorem faithful_gzip_iff (limit : Nat) (body : Bytes) :
    Faithful member .gzip limit body (salvaged body ((member (16 + MAX_WBITS) body).result limit)) ↔
      GzipCovered member limit body := by
  by_cases hlong : (member (16 + MAX_WBITS) body).Exceeds limit
  · rw [Member.result_long hlong]
    exact iff_of_true (faithful_gzip_long hlong) ⟨fun _ _ => .inl hlong, fun _ _ _ _ => .inl hlong⟩
  · unfold GzipCovered
    dsimp only
    cases hm : member (16 + MAX_WBITS) body with
    | complete out rest =>
        rw [hm] at hlong
        rw [Member.result_taken hlong rfl]
        simp only [salvaged, Faithful, Coding.Decodes, reduceCtorEq, false_implies, implies_true, true_and,
          Member.complete.injEq, hlong, false_or]
        by_cases hrest : rest = []
        · subst hrest
          refine iff_of_true (.inl ((gzipDecodes_last hm out).mpr rfl)) ?_
          rintro _ _ ⟨_, rfl⟩ hne
          exact absurd rfl hne
        · have hmore := gzipDecodes_more hm hrest
          have hnone : (∀ x, ¬GzipDecodes (member (16 + MAX_WBITS)) body x) ↔
              ∀ x, ¬GzipDecodes (member (16 + MAX_WBITS)) rest x := by
            constructor
            · intro h tail htail
              exact h _ ((hmore _).mpr ⟨tail, htail, rfl⟩)
            · intro h x hx
              obtain ⟨tail, htail, _⟩ := (hmore x).mp hx
              exact h tail htail
          rw [hmore, hnone]
          constructor
          · rintro h _ _ ⟨rfl, rfl⟩ _
            rcases h with ⟨tail, htail, heq⟩ | h
            · obtain rfl : tail = [] := List.self_eq_append_right.mp heq
              exact .inl htail
            · exact .inr h
          · intro h
            rcases h out rest ⟨rfl, rfl⟩ hrest with hempty | hother
            · exact .inl ⟨[], hempty, (List.append_nil out).symm⟩
            · exact .inr hother
    | truncated out =>
        rw [hm] at hlong
        have hnone := @not_gzipDecodes (member (16 + MAX_WBITS)) body (by simp [hm])
        rw [Member.result_taken hlong rfl]
        simp [salvaged, Faithful, Coding.Decodes, hnone, hlong]
    | corrupt out =>
        rw [hm] at hlong
        have hnone := @not_gzipDecodes (member (16 + MAX_WBITS)) body (by simp [hm])
        rw [Member.result_error hlong rfl]
        simp [salvaged, Faithful, Coding.Decodes, hnone]

theorem loose_or_whole {m : Member} {out : Bytes} (h : m.out? = some out) :
    m = .complete out [] ∨ m.Loose out ∧ ∀ x, m ≠ .complete x [] := by
  cases m with
  | complete out' rest =>
      obtain rfl := Option.some.inj h
      by_cases hrest : rest = []
      · exact .inl (by rw [hrest])
      · exact .inr ⟨.inr ⟨rest, hrest, rfl⟩, fun x hx => hrest (Member.complete.inj hx).2⟩
  | truncated out' =>
      obtain rfl := Option.some.inj h
      exact .inr ⟨.inl rfl, nofun⟩
  | corrupt out' => cases h

theorem out?_of_loose {m : Member} {out : Bytes} (h : m.Loose out) : m.out? = some out := by
  rcases h with rfl | ⟨rest, _, rfl⟩ <;> rfl

theorem not_loose_of_whole {m : Member} {out x : Bytes} (h : m = .complete x []) : ¬m.Loose out := by
  rintro (hm | ⟨rest, hrest, hm⟩)
  · rw [h] at hm
    cases hm
  · rw [h] at hm
    exact hrest (Member.complete.inj hm).2.symm

-- The zlib reading runs over the limit.
theorem faithful_deflate_long {limit : Nat} {body : Bytes} (h : (member MAX_WBITS body).Exceeds limit) :
    Faithful member .deflate limit body (.error (decodedTooLong limit)) ↔
      DeflateCovered member limit body := by
  constructor
  · rintro ⟨_, _, hlong⟩
    refine ⟨fun _ _ hfits => absurd h hfits, ?_, fun _ hfits => absurd h hfits⟩
    intro hwhole _ x hx
    rcases hlong with ⟨y, hy, hlen⟩ | ⟨hnone, _⟩
    · have hraw := hy.resolve_left (hwhole y)
      rw [hx] at hraw
      obtain rfl := (Member.complete.inj hraw).1
      exact hlen
    · exact absurd (.inr hx) (hnone x)
  · intro hc
    refine ⟨rfl, h.1, ?_⟩
    by_cases hwhole : ∃ x, member MAX_WBITS body = .complete x []
    · obtain ⟨x, hx⟩ := hwhole
      refine .inl ⟨x, .inl hx, ?_⟩
      have hlen := h.2
      rw [hx] at hlen
      exact hlen
    · rw [not_exists] at hwhole
      by_cases hraw : ∃ x, member (-MAX_WBITS) body = .complete x []
      · obtain ⟨x, hx⟩ := hraw
        exact .inl ⟨x, .inr hx, hc.cap hwhole h x hx⟩
      · rw [not_exists] at hraw
        refine .inr ⟨fun x hx => ?_, MAX_WBITS, List.mem_cons_self, h.2⟩
        rcases hx with hx | hx
        · exact hwhole x hx
        · exact hraw x hx

-- The zlib reading is taken.
theorem faithful_deflate_taken {limit : Nat} {body out : Bytes}
    (h : ¬(member MAX_WBITS body).Exceeds limit) (hout : (member MAX_WBITS body).out? = some out) :
    Faithful member .deflate limit body (.ok out) ↔ DeflateCovered member limit body := by
  have hcap : ∀ hd : (member MAX_WBITS body).Exceeds limit, False := h
  have hraw : (member MAX_WBITS body).out? = none → False := fun hn => by rw [hout] at hn; cases hn
  rcases loose_or_whole hout with hwhole | ⟨hloose, hnot⟩
  · refine iff_of_true (.inl (.inl hwhole)) ⟨?_, fun _ hd => (hcap hd).elim, fun hn => (hraw hn).elim⟩
    intro x hx
    exact absurd hx (not_loose_of_whole hwhole)
  · have hdecodes : ∀ x, Coding.deflate.Decodes member body x ↔ member (-MAX_WBITS) body = .complete x [] :=
      fun x => ⟨fun hx => hx.resolve_left (hnot x), .inr⟩
    simp only [Faithful, hdecodes]
    constructor
    · intro hf
      refine ⟨?_, fun _ hd => (hcap hd).elim, fun hn => (hraw hn).elim⟩
      intro x hx _
      have hsame := out?_of_loose hx
      rw [hout] at hsame
      obtain rfl := Option.some.inj hsame
      exact hf
    · intro hc
      exact hc.zlib out hloose h

-- The zlib reading is in error, and the raw one decides.
theorem faithful_deflate_raw {limit : Nat} {body : Bytes} (h : ¬(member MAX_WBITS body).Exceeds limit)
    (hout : (member MAX_WBITS body).out? = none) :
    Faithful member .deflate limit body (salvaged body ((member (-MAX_WBITS) body).result limit)) ↔
      DeflateCovered member limit body := by
  have hloose : ∀ out, ¬(member MAX_WBITS body).Loose out := fun out hl => by
    rw [out?_of_loose hl] at hout
    cases hout
  have hdecodes : ∀ x, Coding.deflate.Decodes member body x ↔ member (-MAX_WBITS) body = .complete x [] := by
    refine fun x => ⟨fun hx => hx.resolve_left fun hz => ?_, .inr⟩
    rw [hz] at hout
    cases hout
  have hcovered : DeflateCovered member limit body ↔
      ∀ out, (member (-MAX_WBITS) body).Loose out → (member (-MAX_WBITS) body).Exceeds limit ∨ out = body :=
    ⟨fun hc => hc.raw hout h, fun hr => ⟨fun out hl => absurd hl (hloose out), fun _ hd => absurd hd h,
      fun _ _ => hr⟩⟩
  rw [hcovered]
  by_cases hlong : (member (-MAX_WBITS) body).Exceeds limit
  · rw [Member.result_long hlong]
    refine iff_of_true ⟨rfl, hlong.1, ?_⟩ fun _ _ => .inl hlong
    by_cases hraw : ∃ x, member (-MAX_WBITS) body = .complete x []
    · obtain ⟨x, hx⟩ := hraw
      refine .inl ⟨x, .inr hx, ?_⟩
      have hlen := hlong.2
      rw [hx] at hlen
      exact hlen
    · refine .inr ⟨fun x hx => hraw ⟨x, (hdecodes x).mp hx⟩, -MAX_WBITS, ?_, hlong.2⟩
      exact List.mem_cons_of_mem _ (List.mem_singleton_self _)
  · cases hraw : (member (-MAX_WBITS) body).out? with
    | some out =>
        rw [Member.result_taken hlong hraw]
        simp only [salvaged, Faithful, hdecodes]
        rcases loose_or_whole hraw with hwhole | ⟨hl, hnot⟩
        · exact iff_of_true (.inl hwhole) fun x hx => absurd hx (not_loose_of_whole hwhole)
        · constructor
          · rintro (hw | ⟨_, hbody⟩) x hx
            · exact absurd hw (hnot out)
            · have hsame := out?_of_loose hx
              rw [hraw] at hsame
              exact .inr ((Option.some.inj hsame).symm.trans hbody)
          · intro hr
            exact .inr ⟨hnot, (hr out hl).resolve_left hlong⟩
    | none =>
        rw [Member.result_error hlong hraw]
        refine iff_of_true (.inr ⟨fun x hx => ?_, rfl⟩) fun out hl => ?_
        · rw [(hdecodes x).mp hx] at hraw
          cases hraw
        · rw [out?_of_loose hl] at hraw
          cases hraw

theorem faithful_deflate_iff (limit : Nat) (body : Bytes) :
    Faithful member .deflate limit body
      (salvaged body (if (member MAX_WBITS body).out? = none ∧ ¬(member MAX_WBITS body).Exceeds limit
        then (member (-MAX_WBITS) body).result limit else (member MAX_WBITS body).result limit)) ↔
      DeflateCovered member limit body := by
  by_cases hlong : (member MAX_WBITS body).Exceeds limit
  · rw [if_neg fun hc => hc.2 hlong, Member.result_long hlong]
    exact faithful_deflate_long hlong
  · cases hout : (member MAX_WBITS body).out? with
    | some out =>
        rw [if_neg (by simp), Member.result_taken hlong hout]
        exact faithful_deflate_taken hlong hout
    | none =>
        rw [if_pos ⟨rfl, hlong⟩]
        exact faithful_deflate_raw hlong hout

-- A body labelled gzip or deflate is decoded as a whole or handed on as it is, or
-- found too long, exactly when no stream is taken that does not end with the
-- body, and no reading as zlib hides the raw stream.
theorem decompressed_whole_iff (codecs : Codecs) (member : Int → Bytes → Member)
    (h : codecs.Reads member) (coding : Coding) (enc : String) (henc : PyText.lower enc = coding.name)
    (body : Bytes) (limit : Nat) :
    Faithful member coding limit body (decompress codecs body (some enc) limit) ↔
      coding.Covered member limit body := by
  cases coding with
  | gzip =>
      rw [decompress_gzip h henc]
      exact faithful_gzip_iff limit body
  | deflate =>
      rw [decompress_deflate h henc]
      exact faithful_deflate_iff limit body

-- A zlib that reads streams as it is told.
def zlibFor (member : Int → Bytes → Member) : Codecs where
  zlib wbits body n :=
    match n, member wbits body with
    | none, .complete out _ | none, .truncated out => .ok ⟨out, false, .ok []⟩
    | none, .corrupt _ => .error .zlibError
    | some n, .complete out _ | some n, .truncated out =>
        .ok ⟨out.take n, n < out.length, .ok (out.drop n)⟩
    | some n, .corrupt out =>
        if n ≤ out.length then .ok ⟨out.take n, true, .error .zlibError⟩ else .error .zlibError
  brotli _ := .error .otherError
  zstd _ _ := .error .otherError

theorem zlibFor_reads (member : Int → Bytes → Member) : (zlibFor member).Reads member := by
  refine ⟨?_, ?_, ?_, ?_, ?_⟩
  · intro wbits body out hout
    unfold zlibFor
    dsimp only
    cases hm : member wbits body <;> rw [hm] at hout <;> cases hout <;> rfl
  · intro wbits body out hm
    unfold zlibFor
    dsimp only
    rw [hm]
  · intro wbits body out n hout _
    refine ⟨⟨out.take n, n < out.length, .ok (out.drop n)⟩, out.drop n, ?_, rfl, List.take_append_drop n out,
      List.length_take_le n out, ?_⟩
    · unfold zlibFor
      dsimp only
      cases hm : member wbits body <;> rw [hm] at hout <;> cases hout <;> rfl
    · intro hmore
      have hlt : n < out.length := by simpa using hmore
      exact List.length_take_of_le (by omega)
  · intro wbits body out n hm _ hle
    refine ⟨⟨out.take n, true, .error .zlibError⟩, ?_, List.length_take_of_le hle⟩
    unfold zlibFor
    dsimp only
    rw [hm]
    exact if_pos hle
  · intro wbits body out n hm hlt
    unfold zlibFor
    dsimp only
    rw [hm]
    exact if_neg (by omega)

-- The gzip files of "a" and of "b".
def gzipA : Bytes :=
  [31, 139, 8, 0, 0, 0, 0, 0, 2, 255, 75, 4, 0, 67, 190, 183, 232, 1, 0, 0, 0]

def gzipB : Bytes :=
  [31, 139, 8, 0, 0, 0, 0, 0, 2, 255, 75, 2, 0, 249, 239, 190, 113, 1, 0, 0, 0]

def gzipMember (wbits : Int) (body : Bytes) : Member :=
  if wbits ≠ 16 + MAX_WBITS then .corrupt []
  else if body = gzipA then .complete [97] []
  else if body = gzipB then .complete [98] []
  else if body = gzipA ++ gzipB then .complete [97] gzipB
  else .corrupt []

theorem single_member_decompressed :
    Faithful gzipMember .gzip 5 gzipA (decompress (zlibFor gzipMember) gzipA (some "gzip") 5) := by
  have hm : gzipMember (16 + MAX_WBITS) gzipA = .complete [97] [] := by decide
  refine (decompressed_whole_iff (zlibFor gzipMember) gzipMember (zlibFor_reads gzipMember) .gzip "gzip"
    (by decide) gzipA 5).mpr ⟨?_, ?_⟩
  · intro out hout
    rw [hm] at hout
    cases hout
  · intro out rest hout hrest
    rw [hm] at hout
    exact absurd (Member.complete.inj hout).2.symm hrest

-- The second member of a body is lost.
theorem second_member_lost :
    decompress (zlibFor gzipMember) (gzipA ++ gzipB) (some "gzip") 0 = .ok [97] ∧
    Coding.gzip.Decodes gzipMember (gzipA ++ gzipB) [97, 98] ∧
    ¬Faithful gzipMember .gzip 0 (gzipA ++ gzipB)
      (decompress (zlibFor gzipMember) (gzipA ++ gzipB) (some "gzip") 0) := by
  have hfirst : gzipMember (16 + MAX_WBITS) (gzipA ++ gzipB) = .complete [97] gzipB := by decide
  have hsecond : gzipMember (16 + MAX_WBITS) gzipB = .complete [98] [] := by decide
  have hresult : decompress (zlibFor gzipMember) (gzipA ++ gzipB) (some "gzip") 0 = .ok [97] := by
    rw [decompress_gzip (zlibFor_reads gzipMember) (by decide), hfirst,
      Member.result_taken (Member.not_exceeds_zero _) rfl]
    rfl
  have hdecodes : GzipDecodes (gzipMember (16 + MAX_WBITS)) (gzipA ++ gzipB) ([97] ++ [98]) :=
    .more hfirst (by decide) (.last hsecond)
  refine ⟨hresult, hdecodes, ?_⟩
  rw [hresult]
  rintro (hd | ⟨hnone, _⟩)
  · obtain ⟨tail, htail, heq⟩ := (gzipDecodes_more hfirst (by decide) [97]).mp hd
    rw [(gzipDecodes_last hsecond tail).mp htail] at heq
    exact absurd heq (by decide)
  · exact hnone _ hdecodes

end NeverFox.Client
