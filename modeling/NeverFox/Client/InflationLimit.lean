import NeverFox.Client.Inflation

namespace NeverFox.Client

variable (member : Int → Bytes → Member)

-- The body is one stream and nothing else.
def Coding.Single : Coding → Bytes → Bytes → Prop
  | .gzip, body, x => member (16 + MAX_WBITS) body = .complete x []
  | .deflate, body, x => member MAX_WBITS body = .complete x [] ∨ member (-MAX_WBITS) body = .complete x []

-- A stream that is read as zlib first is not taken for another one, and does not
-- pass the limit in that reading before it does.
def Coding.Unhidden : Coding → Nat → Bytes → Bytes → Prop
  | .gzip, _, _, _ => True
  | .deflate, limit, body, x =>
      (∀ out, (member MAX_WBITS body).out? = some out → out = x) ∧
        ((member MAX_WBITS body).Exceeds limit → limit < x.length)

variable {member}

-- The result that is due for an output under a limit.
def due (limit : Nat) (x : Bytes) : Except Exn Bytes :=
  if limit ≠ 0 ∧ limit < x.length then .error (decodedTooLong limit) else .ok x

theorem due_zero (x : Bytes) : due 0 x = .ok x := if_neg fun h => h.1 rfl

theorem salvaged_due (body x : Bytes) (limit : Nat) : salvaged body (due limit x) = due limit x := by
  unfold due
  split <;> rfl

theorem result_eq_due {m : Member} {x : Bytes} (h : m.out? = some x) (limit : Nat) :
    m.result limit = due limit x := by
  have hmost := Member.most_of_out? h
  unfold due
  by_cases hlong : m.Exceeds limit
  · rw [Member.result_long hlong, if_pos ⟨hlong.1, hmost ▸ hlong.2⟩]
  · rw [Member.result_taken hlong h, if_neg fun hd => hlong ⟨hd.1, hmost ▸ hd.2⟩]

-- What deflate gives under any limit: what the zlib reading puts out, and
-- otherwise the output of the raw stream, if no limit comes first.
theorem decompress_single {codecs : Codecs} (h : codecs.Reads member) {enc : String}
    (henc : PyText.lower enc = "deflate") {body x : Bytes} (hx : Coding.deflate.Single member body x)
    (limit : Nat) :
    (∃ out, (member MAX_WBITS body).out? = some out ∧
      decompress codecs body (some enc) limit = due limit out) ∨
    (member MAX_WBITS body).out? = none ∧ decompress codecs body (some enc) limit =
      if (member MAX_WBITS body).Exceeds limit then .error (decodedTooLong limit) else due limit x := by
  rw [decompress_deflate h henc]
  cases hout : (member MAX_WBITS body).out? with
  | some out =>
      left
      refine ⟨out, rfl, ?_⟩
      rw [if_neg (by simp), result_eq_due hout, salvaged_due]
  | none =>
      right
      refine ⟨rfl, ?_⟩
      have hraw : member (-MAX_WBITS) body = .complete x [] := by
        refine hx.resolve_left fun hz => ?_
        rw [hz] at hout
        cases hout
      by_cases hlong : (member MAX_WBITS body).Exceeds limit
      · rw [if_neg fun hc => hc.2 hlong, if_pos hlong, Member.result_long hlong]
        rfl
      · rw [if_pos ⟨rfl, hlong⟩, if_neg hlong, result_eq_due (by rw [hraw]; rfl), salvaged_due]

theorem deflate_agrees_iff {codecs : Codecs} (h : codecs.Reads member) {enc : String}
    (henc : PyText.lower enc = "deflate") {body x : Bytes} (hx : Coding.deflate.Single member body x)
    {limit : Nat} (hl : limit ≠ 0) :
    (decompress codecs body (some enc) 0 = .ok x ∧ decompress codecs body (some enc) limit = due limit x) ↔
      Coding.deflate.Unhidden member limit body x := by
  rcases decompress_single h henc hx 0 with ⟨out, hout, hzero⟩ | ⟨hnone, hzero⟩
  · rcases decompress_single h henc hx limit with ⟨other, hother, hlimit⟩ | ⟨hnone, _⟩
    · obtain rfl : out = other := Option.some.inj (hout.symm.trans hother)
      rw [hzero, hlimit, due_zero]
      constructor
      · rintro ⟨hsame, _⟩
        obtain rfl := Except.ok.inj hsame
        refine ⟨fun y hy => Option.some.inj (hy.symm.trans hout), fun hlong => ?_⟩
        rw [← Member.most_of_out? hout]
        exact hlong.2
      · rintro ⟨hsame, _⟩
        obtain rfl := hsame out hout
        exact ⟨rfl, rfl⟩
    · rw [hout] at hnone
      cases hnone
  · rcases decompress_single h henc hx limit with ⟨other, hother, _⟩ | ⟨_, hlimit⟩
    · rw [hnone] at hother
      cases hother
    · rw [hzero, hlimit, if_neg (Member.not_exceeds_zero _), due_zero]
      by_cases hlong : (member MAX_WBITS body).Exceeds limit
      · rw [if_pos hlong]
        constructor
        · rintro ⟨_, hdue⟩
          refine ⟨fun out hout => ?_, fun _ => ?_⟩
          · rw [hnone] at hout
            cases hout
          · by_contra hshort
            rw [due, if_neg fun hd => hshort hd.2] at hdue
            cases hdue
        · rintro ⟨_, hcap⟩
          exact ⟨rfl, by rw [due, if_pos ⟨hl, hcap hlong⟩]⟩
      · rw [if_neg hlong]
        refine iff_of_true ⟨rfl, rfl⟩ ⟨fun out hout => ?_, fun hd => absurd hd hlong⟩
        rw [hnone] at hout
        cases hout

-- For a body that is one stream, the decoder without a limit gives its output,
-- and under a limit the output or the error that is due, exactly when no reading
-- as zlib hides a raw stream.
theorem limits_agree_iff (codecs : Codecs) (member : Int → Bytes → Member) (h : codecs.Reads member)
    (coding : Coding) (enc : String) (henc : PyText.lower enc = coding.name) (body x : Bytes)
    (hx : coding.Single member body x) (limit : Nat) (hl : limit ≠ 0) :
    (decompress codecs body (some enc) 0 = .ok x ∧
      decompress codecs body (some enc) limit =
        if limit < x.length then .error (decodedTooLong limit) else .ok x) ↔
      coding.Unhidden member limit body x := by
  have hdue : (if limit < x.length then .error (decodedTooLong limit) else .ok x : Except Exn Bytes) =
      due limit x := by
    unfold due
    simp only [hl, ne_eq, not_false_eq_true, true_and]
  rw [hdue]
  cases coding with
  | gzip =>
      have hout : (member (16 + MAX_WBITS) body).out? = some x := by
        rw [show member (16 + MAX_WBITS) body = .complete x [] from hx]
        rfl
      refine iff_of_true ⟨?_, ?_⟩ trivial
      · rw [decompress_gzip h henc, result_eq_due hout, salvaged_due, due_zero]
      · rw [decompress_gzip h henc, result_eq_due hout, salvaged_due]
  | deflate => exact deflate_agrees_iff h henc hx hl

-- A raw stream of stored blocks, of one octet each and many empty ones, that a
-- zlib stream with one large stored block and an invalid next one can be read into.
def twoFaced : Bytes :=
  [0x78, 1, 0, 0xfe, 0xff, 1] ++ [0, 0, 0, 0xff, 0xff] ++ [0, 1, 0, 0xfe, 0xff, 7] ++
    (List.replicate 13120 [0, 0, 0, 0xff, 0xff]).flatten ++ [1, 0, 0, 0xff, 0xff]

def rawA : Bytes := [0x4b, 4, 0]

def rawMember (wbits : Int) (body : Bytes) : Member :=
  if body = rawA then (if wbits = -MAX_WBITS then .complete [97] [] else .corrupt [])
  else if wbits = -MAX_WBITS then .complete [1, 7] []
  else if wbits = MAX_WBITS then .corrupt ((body.drop 7).take 65533)
  else .corrupt []

theorem raw_stream_fits : decompress (zlibFor rawMember) rawA (some "deflate") 1 = .ok [97] := by
  have hzlib : rawMember MAX_WBITS rawA = .corrupt [] := by decide
  have hagree := (limits_agree_iff (zlibFor rawMember) rawMember (zlibFor_reads rawMember) .deflate "deflate"
    (by decide) rawA [97] (.inr (by decide)) 1 (by decide)).mpr (by
      refine ⟨fun out hout => ?_, fun hlong => ?_⟩
      · rw [hzlib] at hout
        cases hout
      · rw [hzlib] at hlong
        exact absurd hlong.2 (by decide))
  exact hagree.2

-- Two octets fit into a hundred, but the zlib reading does not.
theorem raw_stream_refused :
    Coding.deflate.Single rawMember twoFaced [1, 7] ∧
    decompress (zlibFor rawMember) twoFaced (some "deflate") 0 = .ok [1, 7] ∧
    decompress (zlibFor rawMember) twoFaced (some "deflate") 100 = .error (decodedTooLong 100) := by
  have hne : twoFaced ≠ rawA := by
    intro h
    have hfirst := congrArg List.head? h
    exact absurd hfirst (by decide)
  have hraw : rawMember (-MAX_WBITS) twoFaced = .complete [1, 7] [] := by
    rw [rawMember, if_neg hne, if_pos rfl]
  have hzlib : rawMember MAX_WBITS twoFaced = .corrupt ((twoFaced.drop 7).take 65533) := by
    rw [rawMember, if_neg hne, if_neg (by decide), if_pos rfl]
  have hlen : ((twoFaced.drop 7).take 65533).length = 65533 := by
    have hblocks : ((List.replicate 13120 [0, 0, 0, 0xff, 0xff]).flatten : Bytes).length = 13120 * 5 := by
      rw [List.length_flatten, List.map_replicate, List.sum_replicate_nat]
      rfl
    have htotal : twoFaced.length = 65622 := by
      rw [twoFaced, List.length_append, List.length_append, hblocks]
      rfl
    rw [List.length_take, List.length_drop, htotal]
    omega
  have hlong : (rawMember MAX_WBITS twoFaced).Exceeds 100 := by
    rw [hzlib]
    refine ⟨by decide, ?_⟩
    rw [Member.most, hlen]
    omega
  refine ⟨.inr hraw, ?_, ?_⟩
  · rw [decompress_deflate (zlibFor_reads rawMember) (by decide),
      if_pos ⟨by rw [hzlib]; rfl, Member.not_exceeds_zero _⟩, hraw]
    rfl
  · rw [decompress_deflate (zlibFor_reads rawMember) (by decide), if_neg fun hc => hc.2 hlong,
      Member.result_long hlong]
    rfl

end NeverFox.Client
