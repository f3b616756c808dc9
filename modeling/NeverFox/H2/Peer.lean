import NeverFox.H2.Connection

namespace NeverFox.H2

variable {ε δ : Type}

-- The receiver of RFC 9113 and RFC 7541, as a yardstick for the connection:
-- it strips padding and priority, joins fragments, and decodes every block.
def F_PADDED : UInt8 := 0x8

def unpadded (f : Frame) : Bytes :=
  if f.has F_PADDED then
    match f.payload with
    | [] => []
    | pad :: rest => rest.take (rest.length - pad.toNat)
  else f.payload

def fragment (f : Frame) : Bytes :=
  if f.has F_PRIORITY then (unpadded f).drop 5 else unpadded f

structure Block where
  sid : Nat
  fragment : Bytes
  endStream : Bool
  deriving DecidableEq

structure Assembly where
  pending : Option Block := none
  blocks : List Block := []

def Assembly.offer (a : Assembly) (block : Block) (complete : Bool) : Assembly :=
  if complete then ⟨none, a.blocks ++ [block]⟩ else { a with pending := some block }

def Assembly.receive (a : Assembly) (f : Frame) : Assembly :=
  match f.ftype with
  | .headers => a.offer ⟨f.sid, H2.fragment f, f.endStream⟩ f.endHeaders
  | .continuation =>
      match a.pending with
      | some block => a.offer { block with fragment := block.fragment ++ f.payload } f.endHeaders
      | none => a
  | _ => a

def assembled (frames : List Frame) : Assembly := frames.foldl Assembly.receive {}

def Hpack.decodeAll (hp : Hpack ε δ) (blocks : List Block) : δ :=
  blocks.foldl (fun dec block => (hp.decode dec block.fragment).1) hp.decoder

-- The field lists of the blocks, each read in the state the blocks before it leave.
def Hpack.fieldLists (hp : Hpack ε δ) (blocks : List Block) : List (Nat × List Header) :=
  (blocks.foldl (fun acc block =>
    let (dec, result) := hp.decode acc.1 block.fragment
    (dec, acc.2 ++ [(block.sid, result.toOption.getD [])])) (hp.decoder, [])).2

-- Every field the server has sent on a stream, in order.
def Hpack.sentFields (hp : Hpack ε δ) (blocks : List Block) (sid : Nat) : List Header :=
  ((hp.fieldLists blocks).filter fun entry => entry.1 = sid).flatMap Prod.snd

def plainFields (fields : List Header) : List Header := fields.filter fun field => field.1 ≠ ":status"

def statusOf (fields : List Header) : Option Int :=
  ((fields.filter fun field => field.1 = ":status").getLast?).bind fun field =>
    PyText.intOfStr 10 field.2.toList

-- A codec whose decoder state is the list of the blocks it was given.
def recorder : Hpack Nat (List Bytes) where
  encoder := 0
  decoder := []
  encode count _ := (count + 1, .ok [])
  decode seen block := (seen ++ [block], .ok [(":status", "200")])

def getRequest : SendArgs := ⟨"GET", "/", "a.example", [], .bytes [], 0⟩

theorem Hpack.decodeAll_snoc (hp : Hpack ε δ) (blocks : List Block) (block : Block) :
    hp.decodeAll (blocks ++ [block]) = (hp.decode (hp.decodeAll blocks) block.fragment).1 := by
  simp [decodeAll]

private theorem fieldLists_fst (hp : Hpack ε δ) (blocks : List Block) :
    (blocks.foldl (fun acc block =>
      let (dec, result) := hp.decode acc.1 block.fragment
      (dec, acc.2 ++ [(block.sid, result.toOption.getD [])]))
      (hp.decoder, ([] : List (Nat × List Header)))).1 = hp.decodeAll blocks := by
  induction blocks using List.reverseRecOn with
  | nil => rfl
  | append_singleton blocks block ih =>
      rw [Hpack.decodeAll_snoc, List.foldl_append, List.foldl_cons, List.foldl_nil, ih]

theorem Hpack.fieldLists_snoc (hp : Hpack ε δ) (blocks : List Block) (block : Block) :
    hp.fieldLists (blocks ++ [block]) = hp.fieldLists blocks ++
      [(block.sid, (hp.decode (hp.decodeAll blocks) block.fragment).2.toOption.getD [])] := by
  unfold fieldLists
  rw [List.foldl_append, List.foldl_cons, List.foldl_nil, fieldLists_fst]

theorem Hpack.sentFields_snoc (hp : Hpack ε δ) (blocks : List Block) (block : Block) (sid : Nat) :
    hp.sentFields (blocks ++ [block]) sid = hp.sentFields blocks sid ++
      if block.sid = sid then (hp.decode (hp.decodeAll blocks) block.fragment).2.toOption.getD []
      else [] := by
  unfold sentFields
  rw [fieldLists_snoc, List.filter_append, List.flatMap_append]
  by_cases hs : block.sid = sid <;> simp [hs]

theorem Hpack.sentFields_of_fresh (hp : Hpack ε δ) (blocks : List Block) (sid : Nat)
    (hb : ∀ block ∈ blocks, block.sid ≠ sid) : hp.sentFields blocks sid = [] := by
  induction blocks using List.reverseRecOn with
  | nil => rfl
  | append_singleton blocks block ih =>
      rw [sentFields_snoc, ih fun other ho => hb other (by simp [ho])]
      simp [hb block (by simp)]

theorem statusOf_snoc (fields : List Header) (name value : String) :
    statusOf (fields ++ [(name, value)]) =
      if name = ":status" then PyText.intOfStr 10 value.toList else statusOf fields := by
  unfold statusOf
  by_cases hn : name = ":status" <;> simp [List.filter_append, hn]

-- On well-formed fields the storing loop appends the fields and keeps the last status.
theorem storeFields_eq (st : Stream) (before fields : List Header)
    (hvalid : ∀ field ∈ fields, field.1 = ":status" → (PyText.intOfStr 10 field.2.toList).isSome)
    (hh : st.headers = plainFields before) (hs : st.status = statusOf before) :
    Conn.storeFields st fields = ({ st with
      headers := plainFields (before ++ fields), status := statusOf (before ++ fields) }, none) := by
  induction fields generalizing st before with
  | nil => simp [Conn.storeFields, ← hh, ← hs]
  | cons field rest ih =>
      obtain ⟨name, value⟩ := field
      have hrest : ∀ field ∈ rest, field.1 = ":status" → (PyText.intOfStr 10 field.2.toList).isSome :=
        fun field hf => hvalid field (List.mem_cons_of_mem _ hf)
      have happ : before ++ (name, value) :: rest = (before ++ [(name, value)]) ++ rest := by simp
      unfold Conn.storeFields
      rw [happ]
      by_cases hn : name = ":status"
      · subst hn
        obtain ⟨status, hstatus⟩ := Option.isSome_iff_exists.mp (hvalid (":status", value) (by simp) rfl)
        simp only [↓reduceIte, hstatus]
        rw [ih { st with status := some status } (before ++ [(":status", value)]) hrest
          (by simp [hh, plainFields]) (by simp [statusOf_snoc, hstatus])]
      · simp only [hn, ↓reduceIte]
        rw [ih { st with headers := st.headers ++ [(name, value)] } (before ++ [(name, value)]) hrest
          (by simp [hh, plainFields, hn]) (by simp [statusOf_snoc, hn, hs])]

-- Only frames add to what the peer has sent.
def Assembly.observe (a : Assembly) : Event → Assembly
  | .frame f => a.receive f
  | _ => a

theorem assembled_framesOf (events : List Event) :
    assembled (framesOf events) = events.foldl Assembly.observe {} := by
  unfold assembled
  generalize ({} : Assembly) = a
  induction events generalizing a with
  | nil => rfl
  | cons e rest ih => cases e <;> exact ih _

end NeverFox.H2
