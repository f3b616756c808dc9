import NeverFox.H2.SendWindow

namespace NeverFox.H2

variable {ε δ : Type}

-- What stream 1 carries in front of its block.
def priorityOctets (sid : Nat) : Nat := if sid = 1 then FF_HEADERS_PRIORITY.length else 0

-- The frames that carry a header block.
def carriesBlock (f : Frame) : Bool := f.ftype = .headers || f.ftype = .continuation

-- The frames of a request: none too long, and the fragments of its block join
-- to the block.
structure WellFramed (frames : List Frame) (block : Option Bytes) : Prop where
  sizes : ∀ f ∈ frames, f.payload.length ≤ MAX_FRAME
  joined : frames = [] ∨ block = some ((frames.filter carriesBlock).flatMap fragment)

namespace Conn

-- The block that the codec makes of a header list.
def blockOf (hp : Hpack ε δ) (c : Conn ε δ) (args : SendArgs) : Option Bytes :=
  args.fields.bind fun fields => (hp.encode c.enc fields).2.toOption

-- The frames that a call of `_send` hands to write().
def framesSent (hp : Hpack ε δ) (c : Conn ε δ) (args : SendArgs) : List Frame :=
  ((c.send hp args).1.tp.log.drop c.tp.log.length).flatMap Write.frames

-- The call gives up before its write: the connection is closed, the body is no
-- octets, or struct.pack rejects the header of the frame.
def givesUp (c : Conn ε δ) (args : SendArgs) (block : Bytes) : Prop :=
  c.closed = true ∨ (∃ truthy, args.body = .other truthy) ∨
    2 ^ 32 ≤ priorityOctets c.nextId + block.length ∨ 2 ^ 32 ≤ c.nextId

-- The block fits a single frame.
def BlockFits (hp : Hpack ε δ) (c : Conn ε δ) (args : SendArgs) : Prop :=
  ∀ block, c.blockOf hp args = some block →
    c.givesUp args block ∨ priorityOctets c.nextId + block.length ≤ MAX_FRAME

end Conn

theorem length_headersFrame (sid : Nat) (block : Bytes) (endStream : Bool) :
    (headersFrame sid block endStream).payload.length = priorityOctets sid + block.length := by
  unfold headersFrame priorityOctets
  dsimp only
  split
  · rw [List.length_append]
  · rw [Nat.zero_add]

theorem length_dataFrames {sid : Nat} {body : Bytes} {f : Frame} (hf : f ∈ dataFrames sid body) :
    f.payload.length ≤ MAX_FRAME := by
  obtain ⟨i, _, rfl⟩ := List.mem_map.mp hf
  simp only [List.length_take]
  omega

theorem packs_headersFrame (sid : Nat) (block : Bytes) (endStream : Bool) :
    (headersFrame sid block endStream).packs = true ↔
      priorityOctets sid + block.length < 2 ^ 32 ∧ sid < 2 ^ 32 := by
  unfold Frame.packs
  rw [length_headersFrame, headersFrame_sid, Bool.and_eq_true, decide_eq_true_eq, decide_eq_true_eq]

namespace Conn

theorem upload_eq_some_iff {hp : Hpack ε δ} {c : Conn ε δ} {args : SendArgs} {w : Write} :
    c.upload hp args = some w ↔ c.closed = false ∧ ∃ block data, c.blockOf hp args = some block ∧
      args.body = .bytes data ∧ (headersFrame c.nextId block (!args.body.truthy)).packs = true ∧
      w = ⟨headersFrame c.nextId block (!args.body.truthy) :: dataFrames c.nextId data,
        c.tp.fate c.tp.log.length⟩ := by
  unfold upload blockOf
  cases c.closed with
  | true => simp
  | false =>
      cases args.fields with
      | none => simp
      | some fields =>
          cases args.body with
          | other truthy => simp
          | bytes data =>
              cases he : (hp.encode c.enc fields).2 with
              | error exc => simp [he, Except.toOption]
              | ok block =>
                  simp only [Option.ite_none_right_eq_some, Option.some.injEq, Option.bind_some, he,
                    Except.toOption, true_and, Body.bytes.injEq]
                  constructor
                  · rintro ⟨hpacks, rfl⟩
                    exact ⟨block, data, rfl, rfl, hpacks, rfl⟩
                  · rintro ⟨_, _, rfl, rfl, hpacks, rfl⟩
                    exact ⟨hpacks, rfl⟩

theorem framesSent_eq (hp : Hpack ε δ) (c : Conn ε δ) (args : SendArgs) :
    c.framesSent hp args = (c.upload hp args).toList.flatMap Write.frames := by
  unfold framesSent
  rw [log_send, List.drop_left]

end Conn

theorem joined_request (sid : Nat) (block data : Bytes) (endStream : Bool) :
    ((headersFrame sid block endStream :: dataFrames sid data).filter carriesBlock).flatMap fragment =
      block := by
  have hdata : (dataFrames sid data).filter carriesBlock = [] := by
    apply List.filter_eq_nil_iff.mpr
    intro f hf
    simp [carriesBlock, dataFrames_ftype sid data f hf]
  rw [List.filter_cons_of_pos (by simp [carriesBlock]), hdata, List.flatMap_cons, List.flatMap_nil,
    List.append_nil]
  exact (headersFrame_reads sid block endStream).1

namespace Conn

theorem not_givesUp_iff {c : Conn ε δ} {args : SendArgs} {block : Bytes} :
    ¬c.givesUp args block ↔ c.closed = false ∧ (∃ data, args.body = .bytes data) ∧
      (headersFrame c.nextId block (!args.body.truthy)).packs = true := by
  rw [packs_headersFrame]
  unfold givesUp
  cases hbody : args.body with
  | bytes data => simp [not_or]
  | other truthy => simp

-- A block goes out exactly when the call does not give up.
theorem upload_isSome_iff {hp : Hpack ε δ} {c : Conn ε δ} {args : SendArgs} {block : Bytes}
    (hb : c.blockOf hp args = some block) :
    (∃ w, c.upload hp args = some w) ↔ ¬c.givesUp args block := by
  rw [not_givesUp_iff]
  constructor
  · rintro ⟨w, hw⟩
    obtain ⟨hclosed, block', data, hb', hbody, hpacks, _⟩ := upload_eq_some_iff.mp hw
    obtain rfl : block' = block := Option.some.inj (hb'.symm.trans hb)
    exact ⟨hclosed, ⟨data, hbody⟩, hpacks⟩
  · rintro ⟨hclosed, ⟨data, hbody⟩, hpacks⟩
    exact ⟨_, upload_eq_some_iff.mpr ⟨hclosed, block, data, hb, hbody, hpacks, rfl⟩⟩

end Conn

-- Whatever the state of the connection and of its codec, the frames of a
-- request keep to the limit exactly when its header block fits one frame.
theorem frames_sized_iff (hp : Hpack ε δ) (c : Conn ε δ) (args : SendArgs) :
    WellFramed (c.framesSent hp args) (c.blockOf hp args) ↔ c.BlockFits hp args := by
  rw [Conn.framesSent_eq]
  constructor
  · intro hframed block hb
    by_cases hup : c.givesUp args block
    · exact .inl hup
    · right
      obtain ⟨w, hw⟩ := (Conn.upload_isSome_iff hb).mpr hup
      obtain ⟨_, block', data, hb', _, _, rfl⟩ := Conn.upload_eq_some_iff.mp hw
      obtain rfl : block' = block := Option.some.inj (hb'.symm.trans hb)
      have hhead := hframed.sizes (headersFrame c.nextId block' (!args.body.truthy)) (by simp [hw])
      rwa [length_headersFrame] at hhead
  · intro hfits
    cases hw : c.upload hp args with
    | none => exact ⟨by simp, .inl rfl⟩
    | some w =>
        obtain ⟨_, block, data, hb, _, _, rfl⟩ := Conn.upload_eq_some_iff.mp hw
        have hlen : priorityOctets c.nextId + block.length ≤ MAX_FRAME := by
          rcases hfits block hb with hup | hlen
          · exact absurd hup ((Conn.upload_isSome_iff hb).mp ⟨_, hw⟩)
          · exact hlen
        simp only [Option.toList_some, List.flatMap_singleton]
        constructor
        · intro f hf
          rcases List.mem_cons.mp hf with rfl | hf
          · rwa [length_headersFrame]
          · exact length_dataFrames hf
        · right
          rw [joined_request, hb]

-- A codec as it is on one request: four indexed fields, the host as a literal,
-- and a cookie of n octets that no code makes shorter.
def cookieBlock (n : Nat) : Bytes :=
  [0x82, 0x84, 0x41, 0x87, 0x1a, 0xe5, 0xf2, 0x3a, 0x6b, 0xa0, 0xbf, 0x87, 0x60, 0xff, 0xa1, 0x9b, 0x01] ++
    List.replicate n 0xfc

def cookieCodec (n : Nat) : Hpack Unit Unit where
  encoder := ()
  decoder := ()
  encode _ _ := ((), .ok (cookieBlock n))
  decode _ _ := ((), .ok [])

def cookieRequest (n : Nat) : SendArgs :=
  { getRequest with headers := [(some "cookie", String.ofList (List.replicate n 'X'))] }

theorem blockOf_cookieRequest (n : Nat) :
    (Conn.init (cookieCodec n) fun _ => none).blockOf (cookieCodec n) (cookieRequest n) =
      some (cookieBlock n) := rfl

theorem length_cookieBlock (n : Nat) : (cookieBlock n).length = 17 + n := by
  unfold cookieBlock
  rw [List.length_append, List.length_replicate]
  rfl

-- Twenty thousand octets of cookies go out in one frame.
theorem long_cookie_oversized :
    ¬WellFramed ((Conn.init (cookieCodec 20000) fun _ => none).framesSent (cookieCodec 20000)
        (cookieRequest 20000))
      ((Conn.init (cookieCodec 20000) fun _ => none).blockOf (cookieCodec 20000) (cookieRequest 20000)) := by
  rw [Conn.framesSent_eq]
  intro h
  have hup : ∃ w, (Conn.init (cookieCodec 20000) fun _ => none).upload (cookieCodec 20000)
      (cookieRequest 20000) = some w := by
    rw [Conn.upload_isSome_iff (blockOf_cookieRequest 20000), Conn.not_givesUp_iff, packs_headersFrame,
      length_cookieBlock]
    exact ⟨rfl, ⟨[], rfl⟩, by decide, by decide⟩
  obtain ⟨w, hw⟩ := hup
  obtain ⟨_, block, data, hb, _, _, rfl⟩ := Conn.upload_eq_some_iff.mp hw
  obtain rfl : cookieBlock 20000 = block := Option.some.inj ((blockOf_cookieRequest 20000).symm.trans hb)
  have hhead := h.sizes _ (by rw [hw]; exact List.mem_cons_self)
  rw [length_headersFrame, length_cookieBlock] at hhead
  exact absurd hhead (by decide)

end NeverFox.H2
