import NeverFox.H2.Requests
import NeverFox.H2.SendFailure
import NeverFox.Lib.DynamicTable

namespace NeverFox.H2

open DynamicTable

variable {ε δ : Type}

-- RFC 7541, Appendix A.
def staticTable : List Header :=
  [(":authority", ""), (":method", "GET"), (":method", "POST"), (":path", "/"), (":path", "/index.html"),
    (":scheme", "http"), (":scheme", "https"), (":status", "200"), (":status", "204"), (":status", "206"),
    (":status", "304"), (":status", "400"), (":status", "404"), (":status", "500"), ("accept-charset", ""),
    ("accept-encoding", "gzip, deflate"), ("accept-language", ""), ("accept-ranges", ""), ("accept", ""),
    ("access-control-allow-origin", ""), ("age", ""), ("allow", ""), ("authorization", ""),
    ("cache-control", ""), ("content-disposition", ""), ("content-encoding", ""), ("content-language", ""),
    ("content-length", ""), ("content-location", ""), ("content-range", ""), ("content-type", ""),
    ("cookie", ""), ("date", ""), ("etag", ""), ("expect", ""), ("expires", ""), ("from", ""), ("host", ""),
    ("if-match", ""), ("if-modified-since", ""), ("if-none-match", ""), ("if-range", ""),
    ("if-unmodified-since", ""), ("last-modified", ""), ("link", ""), ("location", ""),
    ("max-forwards", ""), ("proxy-authenticate", ""), ("proxy-authorization", ""), ("range", ""),
    ("referer", ""), ("refresh", ""), ("retry-after", ""), ("server", ""), ("set-cookie", ""),
    ("strict-transport-security", ""), ("transfer-encoding", ""), ("user-agent", ""), ("vary", ""),
    ("via", ""), ("www-authenticate", "")]

-- The size of an entry: its octets, and 32 for the overhead.
def entrySize (field : Header) : Nat := field.1.utf8ByteSize + field.2.utf8ByteSize + 32

-- What is assumed of the encoder. Nobody assigns its header_table_size, so it
-- works with 4096 octets and signals no change: each block is the field
-- representations of its list, with the table that the blocks before it left.
-- `reps` reads the representations off the octets of a block.
structure Indexes (hp : Hpack ε δ) (reps : Bytes → Option (List (Rep String String)))
    (table : ε → Table entrySize) : Prop where
  start : table hp.encoder = .empty 4096
  encode : ∀ enc fields block, (hp.encode enc fields).2 = .ok block → ∃ written, reps block = some written ∧
    (table enc).read staticTable written = some (table (hp.encode enc fields).1, fields)

-- The last HEADER_TABLE_SIZE in the payload of a SETTINGS frame.
def tableSize : Bytes → Option Nat
  | hi :: lo :: a :: b :: c :: d :: rest =>
      (tableSize rest).or (if hi.toNat * 256 + lo.toNat = 1 then some (unpackU32 [a, b, c, d]) else none)
  | _ => none

-- The frames that have gone out whole from one state to another.
def Conn.wroteSince (c c' : Conn ε δ) : List Frame :=
  (c'.tp.log.drop c.tp.log.length).flatMap fun w => if w.cut = none then w.frames else []

-- The peer as it reads header blocks, with the capacity that was acknowledged
-- last. Beside each field list that was given to `_send` stands what it decoded,
-- which is nothing from the first block on that it could not read.
structure Listener where
  table : Option (Table entrySize) := some (.empty 4096)
  blocks : List (List Header × Option (List Header)) := []

namespace Listener

def take (reps : Bytes → Option (List (Rep String String))) (l : Listener) (given : List Header)
    (block : Bytes) : Listener :=
  let decoded := l.table.bind fun t => (reps block).bind fun written => t.read staticTable written
  { table := decoded.map Prod.fst, blocks := l.blocks ++ [(given, decoded.map Prod.snd)] }

def apply (l : Listener) : Option Nat → Listener
  | none => l
  | some size => { l with table := l.table.map fun t => t.resize size }

-- A SETTINGS frame is acknowledged in the step that dispatches it.
def note (reps : Bytes → Option (List (Rep String String))) (l : Listener) (c : Conn ε δ) (e : Event)
    (c' : Conn ε δ) : Listener :=
  match e with
  | .send args => ((c.wroteSince c').filter (·.ftype = .headers)).foldl
      (fun l f => l.take reps (args.fields.getD []) (headBlock f)) l
  | .frame f =>
      if f.ftype = .settings ∧ settingsAck ∈ c.wroteSince c' then l.apply (tableSize f.payload) else l
  | _ => l

-- Every block was decoded to the list that it was made of.
def Honoured (l : Listener) : Prop := ∀ entry ∈ l.blocks, entry.2 = some entry.1

end Listener

-- Every index of the block that a send makes is to an entry that the peer has
-- when its turn comes.
def reaches (hp : Hpack ε δ) (reps : Bytes → Option (List (Rep String String))) (s : Conn ε δ × Listener) :
    Event → Prop
  | .send args => ∀ t fields block written, s.2.table = some t → s.1.closed = false →
      args.fields = some fields → (hp.encode s.1.enc fields).2 = .ok block → reps block = some written →
        t.Reaches staticTable written fields
  | _ => True

-- A send that does not fail behind its own checks puts out nothing, or the block
-- of its field list.
theorem send_block {hp : Hpack ε δ} {c : Conn ε δ} {args : SendArgs} (hsafe : safeSend hp c args) :
    ((c.send hp args).1.enc = c.enc ∧ c.wroteSince (c.send hp args).1 = [] ∧
        (c.closed = true ∨ args.fields = none)) ∨
      ∃ fields block, c.closed = false ∧ args.fields = some fields ∧
        (hp.encode c.enc fields).2 = .ok block ∧ (c.send hp args).1.enc = (hp.encode c.enc fields).1 ∧
        (c.wroteSince (c.send hp args).1).filter (·.ftype = .headers) =
          [headersFrame c.nextId block (!args.body.truthy)] := by
  rw [c.send_fst]
  rcases c.trySend_cases hp args with ⟨hno, exc, he⟩ | ⟨fields, hopen, hf, he⟩
  · rw [he]
    exact .inl ⟨rfl, by simp [Conn.wroteSince, Conn.release], hno⟩
  · have hemits : emits hp c args fields := by simpa [safeSend, hopen, hf] using hsafe
    rw [emits_iff] at hemits
    rw [he]
    dsimp only
    rcases (c.allocate.register c.nextId args.maxBytes).emit_cases hp c.nextId fields args.body with
      ⟨exc, _, hm⟩ | ⟨block, data, hb, _, _, hm⟩ <;> rw [hm] at hemits ⊢
    · cases hemits
    · have hcut : c.tp.fate c.tp.log.length = none := by
        simpa [Conn.write, Conn.setEncoder, Conn.register, Conn.allocate] using hemits
      refine .inr ⟨fields, block, hopen, hf, hb, rfl, ?_⟩
      rw [← heads_request c.nextId block data (!args.body.truthy)]
      congr 1
      simp [Conn.wroteSince, Conn.release, Conn.write, Conn.setEncoder, Conn.register, Conn.allocate, hcut]

-- What a step does to the peer: it has nothing to read, or it reads the block of
-- a send, or it gets the capacity that a SETTINGS frame names.
theorem note_cases {hp : Hpack ε δ} (reps : Bytes → Option (List (Rep String String))) (l : Listener)
    {c c' : Conn ε δ} {e : Event} (hsafe : safeEvent hp c e) (hstep : H2.step hp c e = some c') :
    (c'.enc = c.enc ∧ l.note reps c e c' = l ∧
        ∀ args, e = .send args → c.closed = true ∨ args.fields = none) ∨
      (∃ args fields block, e = .send args ∧ c.closed = false ∧ args.fields = some fields ∧
        (hp.encode c.enc fields).2 = .ok block ∧ c'.enc = (hp.encode c.enc fields).1 ∧
        l.note reps c e c' = l.take reps fields block) ∨
      ∃ f size, e = .frame f ∧ f.ftype = .settings ∧ tableSize f.payload = some size ∧ c'.enc = c.enc ∧
        l.note reps c e c' = l.apply (some size) := by
  by_cases hsend : ∃ args, e = .send args
  · obtain ⟨args, rfl⟩ := hsend
    cases hstep
    rcases send_block hsafe with ⟨henc, hnone, hno⟩ | ⟨fields, block, hopen, hfields, hblock, henc, hheads⟩
    · refine .inl ⟨henc, ?_, ?_⟩
      · simp only [Listener.note, hnone, List.filter_nil, List.foldl_nil]
      · intro args' heq
        cases heq
        exact hno
    · refine .inr (.inl ⟨args, fields, block, rfl, hopen, hfields, hblock, henc, ?_⟩)
      simp only [Listener.note, hheads, List.foldl_cons, List.foldl_nil, headBlock_headersFrame, hfields,
        Option.getD_some]
  · have hno : ∀ args, e ≠ .send args := fun args he => hsend ⟨args, he⟩
    have henc : c'.enc = c.enc := (ControlOnly.step hstep hno).2.1
    have hquiet : l.note reps c e c' = l → c'.enc = c.enc ∧ l.note reps c e c' = l ∧
        ∀ args, e = .send args → c.closed = true ∨ args.fields = none :=
      fun hnote => ⟨henc, hnote, fun args he => absurd he (hno args)⟩
    cases e with
    | send args => exact absurd rfl (hno args)
    | frame f =>
        by_cases hack : f.ftype = .settings ∧ settingsAck ∈ c.wroteSince c'
        · have hnote : l.note reps c (.frame f) c' = l.apply (tableSize f.payload) := if_pos hack
          cases hsize : tableSize f.payload with
          | none => exact .inl (hquiet (by rw [hnote, hsize]; rfl))
          | some size => exact .inr (.inr ⟨f, size, rfl, hack.1, hsize, henc, by rw [hnote, hsize]⟩)
        · exact .inl (hquiet (if_neg hack))
    | _ => exact .inl (hquiet rfl)

-- The peer's table is akin to the encoder's, or it is lost and with it a block;
-- and no block is decoded to anything else than its list.
structure Follows (table : ε → Table entrySize) (s : Conn ε δ × Listener) : Prop where
  akin : ∀ t, s.2.table = some t → Akin (table s.1.enc) t
  lost : s.2.table = none → ¬s.2.Honoured
  right : ∀ entry ∈ s.2.blocks, entry.2 = none ∨ entry.2 = some entry.1

-- The peer reads one more block of the encoder.
theorem Follows.take {hp : Hpack ε δ} {reps : Bytes → Option (List (Rep String String))}
    {table : ε → Table entrySize} (hindexes : Indexes hp reps table) {c c' : Conn ε δ} {l : Listener}
    (h : Follows table (c, l)) {fields : List Header} {block : Bytes}
    (hblock : (hp.encode c.enc fields).2 = .ok block) (henc : c'.enc = (hp.encode c.enc fields).1) :
    Follows table (c', l.take reps fields block) ∧ ((l.take reps fields block).Honoured ↔
      l.Honoured ∧ ∀ t written, l.table = some t → reps block = some written →
        t.Reaches staticTable written fields) := by
  obtain ⟨written, hwritten, hread⟩ := hindexes.encode c.enc fields block hblock
  have hsnoc : ∀ decoded : Option (List Header), ∀ entry ∈ l.blocks ++ [(fields, decoded)],
      entry ∈ l.blocks ∨ entry = (fields, decoded) := by
    intro decoded entry hentry
    simpa using hentry
  -- Where nothing is decoded the block is lost, and the table with it.
  have hlost : l.table.bind (fun t => (reps block).bind fun written => t.read staticTable written) = none →
      Follows table (c', l.take reps fields block) ∧ ¬(l.take reps fields block).Honoured := by
    intro hnone
    have htake : l.take reps fields block = { table := none, blocks := l.blocks ++ [(fields, none)] } := by
      simp only [Listener.take, hnone, Option.map_none]
    have hbad : ¬(l.take reps fields block).Honoured := by
      intro hall
      have hlast := hall (fields, none) (by rw [htake]; simp)
      cases hlast
    refine ⟨⟨?_, fun _ => hbad, ?_⟩, hbad⟩
    · intro t ht
      rw [htake] at ht
      cases ht
    · intro entry hentry
      rw [htake] at hentry
      rcases hsnoc none entry hentry with hold | rfl
      · exact h.right entry hold
      · exact .inl rfl
  cases htable : l.table with
  | none =>
      obtain ⟨hfollows, hbad⟩ := hlost (by rw [htable]; rfl)
      exact ⟨hfollows, iff_of_false hbad fun hall => h.lost htable hall.1⟩
  | some t =>
      have hreach : (∀ t' written', some t = some t' → reps block = some written' →
          t'.Reaches staticTable written' fields) ↔ t.Reaches staticTable written fields := by
        simp [hwritten]
      rw [hreach]
      rcases (h.akin t htable).read hread with ⟨hreaches, u, hu, hakin⟩ | ⟨hreaches, hnone⟩
      · have htake : l.take reps fields block =
            { table := some u, blocks := l.blocks ++ [(fields, some fields)] } := by
          simp only [Listener.take, htable, hwritten, Option.bind_some, hu, Option.map_some]
        refine ⟨⟨?_, ?_, ?_⟩, ?_⟩
        · intro t' ht'
          rw [htake] at ht'
          obtain rfl := Option.some.inj ht'
          rw [henc]
          exact hakin
        · intro hnone
          rw [htake] at hnone
          cases hnone
        · intro entry hentry
          rw [htake] at hentry
          rcases hsnoc _ entry hentry with hold | rfl
          · exact h.right entry hold
          · exact .inr rfl
        · rw [htake, Listener.Honoured, and_iff_left hreaches]
          simp [Listener.Honoured, or_imp, forall_and]
      · obtain ⟨hfollows, hbad⟩ := hlost (by simp only [htable, hwritten, Option.bind_some, hnone])
        exact ⟨hfollows, iff_of_false hbad fun hall => hreaches hall.2⟩

-- One step of the connection, with the peer listening.
theorem Follows.step {hp : Hpack ε δ} {reps : Bytes → Option (List (Rep String String))}
    {table : ε → Table entrySize} (hindexes : Indexes hp reps table) {s s' : Conn ε δ × Listener} {e : Event}
    (h : Follows table s) (hsafe : safeEvent hp s.1 e)
    (hs : Transition.noting (H2.step hp) (Listener.note reps) s e = some s') :
    Follows table s' ∧ (s'.2.Honoured ↔ s.2.Honoured ∧ reaches hp reps s e) := by
  obtain ⟨c, l⟩ := s
  obtain ⟨c', l'⟩ := s'
  obtain ⟨hstep, rfl⟩ := Transition.noting_eq_some hs
  rcases note_cases reps l hsafe hstep with ⟨henc, hnote, hno⟩ |
    ⟨args, fields, block, rfl, hopen, hfields, hblock, henc, hnote⟩ | ⟨f, size, rfl, _, _, henc, hnote⟩ <;>
    rw [hnote]
  · have hok : reaches hp reps (c, l) e := by
      cases e with
      | send args =>
          intro t fields block written _ hopen hfields
          rcases hno args rfl with hclosed | hnone
          · rw [hclosed] at hopen
            cases hopen
          · rw [hnone] at hfields
            cases hfields
      | _ => trivial
    exact ⟨⟨fun t ht => henc ▸ h.akin t ht, h.lost, h.right⟩, (and_iff_left hok).symm⟩
  · obtain ⟨hfollows, hiff⟩ := h.take hindexes hblock henc
    refine ⟨hfollows, hiff.trans (and_congr_right fun _ => ?_)⟩
    constructor
    · intro hreach t fields' block' written ht _ hfields' hblock'
      obtain rfl := Option.some.inj (hfields.symm.trans hfields')
      obtain rfl := Except.ok.inj (hblock.symm.trans hblock')
      exact hreach t written ht
    · intro hreach t written ht
      exact hreach t fields block written ht hopen hfields hblock
  · refine ⟨⟨?_, ?_, h.right⟩, (and_iff_left trivial).symm⟩
    · intro t ht
      obtain ⟨before, hbefore, rfl⟩ := Option.map_eq_some_iff.mp ht
      exact henc ▸ (h.akin before hbefore).resize size
    · intro hnone
      exact h.lost (Option.map_eq_none_iff.mp hnone)

-- While no SETTINGS frame names less than 4096, the peer has all the entries of
-- the encoder, and room for them.
structure Covers (table : ε → Table entrySize) (s : Conn ε δ × Listener) : Prop where
  ahead : ∃ t, s.2.table = some t ∧ Ahead (table s.1.enc) t
  capacity : (table s.1.enc).capacity = 4096
  honoured : s.2.Honoured

def roomy (_ : Conn ε δ × Listener) (e : Event) : Prop :=
  ∀ f size, e = .frame f → f.ftype = .settings → tableSize f.payload = some size → 4096 ≤ size

theorem Covers.step {hp : Hpack ε δ} {reps : Bytes → Option (List (Rep String String))}
    {table : ε → Table entrySize} (hindexes : Indexes hp reps table) {s s' : Conn ε δ × Listener} {e : Event}
    (h : Covers table s) (hsafe : safeEvent hp s.1 e) (hroomy : roomy s e)
    (hs : Transition.noting (H2.step hp) (Listener.note reps) s e = some s') : Covers table s' := by
  obtain ⟨c, l⟩ := s
  obtain ⟨c', l'⟩ := s'
  obtain ⟨hstep, rfl⟩ := Transition.noting_eq_some hs
  obtain ⟨t, ht, hahead⟩ := h.ahead
  rcases note_cases reps l hsafe hstep with ⟨henc, hnote, _⟩ |
    ⟨args, fields, block, _, _, _, hblock, henc, hnote⟩ | ⟨f, size, he, hf, hsize, henc, hnote⟩ <;>
    rw [hnote]
  · exact ⟨⟨t, ht, henc ▸ hahead⟩, henc ▸ h.capacity, h.honoured⟩
  · obtain ⟨written, hwritten, hread⟩ := hindexes.encode c.enc fields block hblock
    obtain ⟨u, hu, hcovers⟩ := hahead.read hread
    have htable : l.table = some t := ht
    have htake : l.take reps fields block =
        { table := some u, blocks := l.blocks ++ [(fields, some fields)] } := by
      simp only [Listener.take, htable, hwritten, Option.bind_some, hu, Option.map_some]
    rw [htake]
    refine ⟨⟨u, rfl, henc ▸ hcovers⟩, ?_, ?_⟩
    · exact (congrArg (fun enc => (table enc).capacity) henc).trans
        ((Table.read_capacity hread).trans h.capacity)
    · intro entry hentry
      rcases List.mem_append.mp hentry with hold | hnew
      · exact h.honoured entry hold
      · obtain rfl := List.mem_singleton.mp hnew
        rfl
  · have hle : (table c.enc).capacity ≤ size := h.capacity ▸ hroomy f size he hf hsize
    refine ⟨⟨t.resize size, ?_, henc ▸ hahead.resize hle⟩, henc ▸ h.capacity, h.honoured⟩
    exact congrArg (Option.map fun t => t.resize size) ht

-- The client encodes with 4096 octets whatever it has acknowledged. So where no
-- send fails behind its own checks, the peer decodes every block to the list
-- that `_send` was given exactly when the indices in it reach no further than
-- the entries that the peer still has. While every size that it named is 4096 or
-- more, they do not. And no block is decoded to another list.
theorem header_table_honoured_iff (hp : Hpack ε δ) (reps : Bytes → Option (List (Rep String String)))
    (table : ε → Table entrySize) (hindexes : Indexes hp reps table) (fate : Nat → Option Nat)
    (events : List Event) (c : Conn ε δ) (l : Listener)
    (hsends : Transition.Meets (step hp) (fun c e => safeEvent hp c e) (.init hp fate) events)
    (hrun : Transition.run (Transition.noting (step hp) (Listener.note reps)) (.init hp fate, {}) events =
      some (c, l)) :
    (l.Honoured ↔ Transition.Meets (Transition.noting (step hp) (Listener.note reps)) (reaches hp reps)
      (.init hp fate, {}) events) ∧
    ((∀ f, .frame f ∈ events → f.ftype = .settings → ∀ size, tableSize f.payload = some size →
      4096 ≤ size) → l.Honoured) ∧
    ∀ entry ∈ l.blocks, entry.2 = none ∨ entry.2 = some entry.1 := by
  have hsafe := hsends.noting (Listener.note reps) ({} : Listener)
  have hnothing : ({} : Listener).Honoured := by
    intro entry hentry
    cases hentry
  have hfollows : Follows table (.init hp fate, {}) := by
    refine ⟨?_, ?_, ?_⟩
    · intro t ht
      obtain rfl := Option.some.inj ht
      rw [show (Conn.init hp fate).enc = hp.encoder from rfl, hindexes.start]
      exact ⟨[], List.prefix_rfl, List.prefix_rfl⟩
    · intro hnone
      cases hnone
    · intro entry hentry
      cases hentry
  refine ⟨?_, ?_, ?_⟩
  · have hends : l.Honoured ↔ ({} : Listener).Honoured ∧ Transition.Meets
        (Transition.noting (step hp) (Listener.note reps)) (reaches hp reps) (.init hp fate, {}) events :=
      Transition.end_iff_of_meets (Follows table) (fun s => s.2.Honoured)
        (fun s e next h hok hs => h.step hindexes hok hs) hfollows hsafe hrun
    rw [hends]
    exact and_iff_right hnothing
  · intro hlarge
    have hroomy : Transition.Meets (Transition.noting (step hp) (Listener.note reps)) roomy
        (.init hp fate, {}) events := by
      refine .of_forall fun e he s f size hframe hf hsize => ?_
      subst hframe
      exact hlarge f he hf size hsize
    have hcovers : Covers table (.init hp fate, {}) := by
      refine ⟨⟨_, rfl, ?_⟩, ?_, hnothing⟩
      · rw [show (Conn.init hp fate).enc = hp.encoder from rfl, hindexes.start]
        exact ⟨List.prefix_rfl, Nat.le_refl _⟩
      · rw [show (Conn.init hp fate).enc = hp.encoder from rfl, hindexes.start]
        rfl
    exact (Transition.invariant (Covers table) (fun s e next h hok hs => h.step hindexes hok.1 hok.2 hs)
      hcovers (hsafe.and hroomy) hrun).honoured
  · have hright : ∀ {s s' : Conn ε δ × Listener}, Follows table s →
        Transition.Meets (Transition.noting (step hp) (Listener.note reps)) (fun s e => safeEvent hp s.1 e)
          s events →
        Transition.run (Transition.noting (step hp) (Listener.note reps)) s events = some s' →
        Follows table s' :=
      fun h hm hr => Transition.invariant (Follows table)
        (fun s e next h hok hs => (h.step hindexes hok hs).1) h hm hr
    exact (hright hfollows hsafe hrun).right

-- The blocks of the codec of one list, and its table.
def getReps (block : Bytes) : Option (List (Rep String String)) :=
  if block = getBlock false then
    some [.indexed 2, .indexed 4, .insert (.index 1) "a.example", .indexed 7]
  else if block = getBlock true then some [.indexed 2, .indexed 4, .indexed 62, .indexed 7]
  else none

def getTable (known : Bool) : Table entrySize :=
  if known then (Table.empty 4096).insert (":authority", "a.example") else .empty 4096

theorem getCodec_indexes : Indexes getCodec getReps getTable where
  start := rfl
  encode := by
    intro known fields block hblock
    by_cases hf : fields = getFields
    · subst hf
      rw [encode_getFields] at hblock ⊢
      obtain rfl := Except.ok.inj hblock
      cases known with
      | false => exact ⟨_, rfl, rfl⟩
      | true => exact ⟨_, rfl, rfl⟩
    · simp [getCodec, hf] at hblock

def tableSettings (size : Nat) : Frame := ⟨.settings, 0, 0, [0, 1] ++ packU32 size⟩

-- The peer asks for a larger table, and its server for the same page twice.
theorem header_table_honoured_larger :
    ∃ c l, Transition.run (Transition.noting (step getCodec) (Listener.note getReps))
        (.init getCodec fun _ => none, {})
        [.send getRequest, .frame (tableSettings 65536), .send getRequest] = some (c, l) ∧
      l.blocks = [(getFields, some getFields), (getFields, some getFields)] ∧ l.Honoured := by
  refine ⟨_, _, rfl, rfl, ?_⟩
  refine (header_table_honoured_iff getCodec getReps getTable getCodec_indexes (fun _ => none)
    [.send getRequest, .frame (tableSettings 65536), .send getRequest] _ _ (by decide) rfl).2.1 ?_
  intro f hf _ size hsize
  obtain rfl : f = tableSettings 65536 := by simpa using hf
  have hvalue : tableSize (tableSettings 65536).payload = some 65536 := by decide
  obtain rfl := Option.some.inj (hvalue.symm.trans hsize)
  decide

-- The peer wants no table at all, and has that acknowledged. The second request
-- still refers to the entry of the first.
theorem acknowledged_size_ignored :
    ∃ c l, Transition.Meets (step getCodec) (fun c e => safeEvent getCodec c e)
        (.init getCodec fun _ => none)
        [.send getRequest, .frame (tableSettings 0), .send getRequest] ∧
      Transition.run (Transition.noting (step getCodec) (Listener.note getReps))
        (.init getCodec fun _ => none, {})
        [.send getRequest, .frame (tableSettings 0), .send getRequest] = some (c, l) ∧
      Indexes getCodec getReps getTable ∧
      l.blocks = [(getFields, some getFields), (getFields, none)] ∧ ¬l.Honoured := by
  refine ⟨_, _, by decide, rfl, getCodec_indexes, rfl, fun hall => ?_⟩
  have hlast := hall (getFields, none) (List.mem_of_mem_tail (List.mem_singleton_self _))
  cases hlast

end NeverFox.H2
