import NeverFox.H2.Lemmas

namespace NeverFox.H2

variable {ε δ : Type}

-- Where a call of `_send` stands. From `allocated` on it holds `_send_lock`.
inductive Sender
  | idle
  | checked (args : SendArgs) (fields : List Header)
  | allocated (args : SendArgs) (fields : List Header) (sid : Nat)
  | registered (args : SendArgs) (fields : List Header) (sid : Nat)

-- Where the reader stands in the GOAWAY branch and in `_fail_all`. The items
-- are what is left of a snapshot.
inductive Reader
  | reading
  | marked (f : Frame)
  | sweeping (f : Frame) (items : List Nat)
  | raised (exc : Exn)
  | shut (exc : Exn)
  | failing (exc : Exn) (items : List Nat)
  | finished
  deriving DecidableEq

-- A connection between its threads. `snapped` and `dispatched` record the last
-- ids of the GOAWAYs whose snapshot was taken, and of those fully dispatched.
structure Threads (ε δ : Type) where
  conn : Conn ε δ
  sender : Nat → Sender := fun _ => .idle
  lock : Option Nat := none
  reader : Reader := .reading
  snapped : List Nat := []
  dispatched : List Nat := []

-- One critical section, or one statement of the reader.
inductive Act
  | check (t : Nat) (args : SendArgs)
  | allocate (t : Nat)
  | register (t : Nat)
  | write (t : Nat)
  | frame (f : Frame)
  | eof
  | readTimeout
  | reader
  | acquire
  | rst (sid : Nat)
  | pop (sid : Nat)
  | close

namespace Threads

def start (hp : Hpack ε δ) (fate : Nat → Option Nat) : Threads ε δ := { conn := .init hp fate }

def setSender (s : Threads ε δ) (t : Nat) (sender : Sender) : Threads ε δ :=
  { s with sender := Function.update s.sender t sender }

-- A write waits while a sender holds the lock.
def mayWrite (s : Threads ε δ) (c : Conn ε δ) : Bool :=
  s.lock = none || c.tp.log.length = s.conn.tp.log.length

-- The closed check and the building of the header list.
def check (s : Threads ε δ) (t : Nat) (args : SendArgs) : Option (Threads ε δ) :=
  match s.sender t with
  | .idle =>
      if s.conn.closed then some { s with conn := s.conn.release }
      else match args.fields with
        | none => some { s with conn := s.conn.release }
        | some fields => some (s.setSender t (.checked args fields))
  | _ => none

def allocate (s : Threads ε δ) (t : Nat) : Option (Threads ε δ) :=
  match s.sender t, s.lock with
  | .checked args fields, none =>
      some { s.setSender t (.allocated args fields s.conn.nextId) with
        conn := s.conn.allocate, lock := some t }
  | _, _ => none

def register (s : Threads ε δ) (t : Nat) : Option (Threads ε δ) :=
  match s.sender t with
  | .allocated args fields sid =>
      some { s.setSender t (.registered args fields sid) with
        conn := s.conn.register sid args.maxBytes }
  | _ => none

-- Encoding and writing; the lock and the reference go whatever happens.
def write (hp : Hpack ε δ) (s : Threads ε δ) (t : Nat) : Option (Threads ε δ) :=
  match s.sender t with
  | .registered args fields sid =>
      some { s.setSender t .idle with
        conn := (s.conn.emit hp sid fields args.body).1.release, lock := none }
  | _ => none

-- GOAWAY is taken apart, every other frame is dispatched in one go.
def frame (hp : Hpack ε δ) (s : Threads ε δ) (f : Frame) : Option (Threads ε δ) :=
  if s.reader = .reading ∧ f.onWire then
    if f.ftype = .goaway then some { s with conn := s.conn.markGoaway f, reader := .marked f }
    else
      let (c, raised) := s.conn.dispatch hp f
      if s.mayWrite c then
        some { s with
          conn := c
          reader := match raised with
            | none => .reading
            | some exc => .raised exc }
      else none
  else none

-- The statements behind a GOAWAY's flags, and those of `_fail_all`.
def reads (s : Threads ε δ) : Option (Threads ε δ) :=
  match s.reader with
  | .reading | .finished => none
  | .marked f =>
      some { s with
        reader := .sweeping f s.conn.streams, snapped := Conn.goawayLastSid f :: s.snapped }
  | .sweeping f [] =>
      some { s with reader := .reading, dispatched := Conn.goawayLastSid f :: s.dispatched }
  | .sweeping f (sid :: items) =>
      some { s with
        conn := s.conn.failItems (Conn.goawayError f) (fun sid => Conn.goawayLastSid f < sid) [sid]
        reader := .sweeping f items }
  | .raised exc => some { s with conn := { s.conn with closed := true }, reader := .shut exc }
  | .shut exc => some { s with reader := .failing exc s.conn.streams }
  | .failing _ [] =>
      some { s with
        conn := { s.conn with reading := false, tp := { s.conn.tp with live := false } }
        reader := .finished }
  | .failing exc (sid :: items) =>
      some { s with
        conn := s.conn.failItems exc (fun _ => true) [sid]
        reader := .failing exc items }

def step (hp : Hpack ε δ) (s : Threads ε δ) : Act → Option (Threads ε δ)
  | .check t args => s.check t args
  | .allocate t => s.allocate t
  | .register t => s.register t
  | .write t => s.write hp t
  | .frame f => s.frame hp f
  | .eof => if s.reader = .reading then some { s with reader := .raised Conn.peerClosed } else none
  | .readTimeout =>
      if s.reader = .reading then
        some (if s.conn.tp.stop then { s with reader := .raised Conn.peerClosed } else s)
      else none
  | .reader => s.reads
  | .acquire => some { s with conn := s.conn.acquire }
  | .rst sid => if s.mayWrite (s.conn.sendRst sid) then some { s with conn := s.conn.sendRst sid } else none
  | .pop sid => some { s with conn := s.conn.pop sid }
  | .close => some { s with conn := s.conn.close }

-- A stream is registered while the reader's last snapshot is still to come,
-- under an id that no GOAWAY snapshot taken so far has passed over.
def inTime (s : Threads ε δ) : Act → Bool
  | .register t =>
      match s.sender t with
      | .allocated _ _ sid =>
          (match s.reader with
            | .failing _ _ | .finished => false
            | _ => true) && s.snapped.all fun last => sid ≤ last
      | _ => true
  | _ => true

-- No stream is forgotten: whatever is pending is still to be failed.
structure Covered (s : Threads ε δ) : Prop where
  failing : ∀ exc items, s.reader = .failing exc items →
    ∀ sid ∈ s.conn.streams, (s.conn.obj sid).done = true ∨ sid ∈ items
  finished : s.reader = .finished → ∀ sid ∈ s.conn.streams, (s.conn.obj sid).done = true
  sweeping : ∀ f items, s.reader = .sweeping f items → Conn.goawayLastSid f ∈ s.snapped ∧
    ∀ sid ∈ s.conn.streams, Conn.goawayLastSid f < sid → (s.conn.obj sid).done = true ∨ sid ∈ items
  dispatched : ∀ last ∈ s.dispatched, last ∈ s.snapped ∧
    ∀ sid ∈ s.conn.streams, last < sid → (s.conn.obj sid).done = true

end Threads

-- A step that registers no stream and reopens none.
structure Settles (c c' : Conn ε δ) : Prop where
  streams : c'.streams ⊆ c.streams
  done : ∀ sid, (c.obj sid).done = true → (c'.obj sid).done = true

namespace Settles

theorem of_obj {c c' : Conn ε δ} (hs : c'.streams ⊆ c.streams) (ho : c'.obj = c.obj) : Settles c c' :=
  ⟨hs, fun _ hd => ho ▸ hd⟩

theorem same (c : Conn ε δ) : Settles c c := of_obj (List.Subset.refl _) rfl

theorem trans {a b c : Conn ε δ} (h : Settles a b) (h' : Settles b c) : Settles a c :=
  ⟨List.Subset.trans h'.streams h.streams, fun sid hd => h'.done sid (h.done sid hd)⟩

theorem modify (c : Conn ε δ) (sid : Nat) (f : Stream → Stream)
    (hf : ∀ st : Stream, st.done = true → (f st).done = true) : Settles c (c.modify sid f) := by
  refine ⟨List.Subset.refl _, ?_⟩
  intro other hd
  by_cases ho : other = sid
  · subst ho
    simpa [Conn.modify] using hf _ hd
  · simpa [Conn.modify, ho] using hd

theorem of_micros {kind : FrameType} {c c' : Conn ε δ} (h : Conn.Micros kind c c') :
    Settles c c' := by
  refine h.lift same (fun _ _ _ => trans) ?_
  intro c c' hm
  cases hm with
  | store sid fields _ =>
      refine modify c sid _ fun st hd => ?_
      obtain ⟨status, headers, he⟩ := Conn.storeFields_kept st fields
      rw [he]
      exact hd
  | chunk f _ => exact modify c f.sid _ fun _ hd => hd
  | finish sid => exact modify c sid _ fun _ _ => rfl
  | fail sid exc => exact modify c sid _ fun _ _ => rfl
  | _ => exact of_obj (List.Subset.refl _) rfl

theorem failItems (c : Conn ε δ) (exc : Exn) (pick : Nat → Bool) (items : List Nat) :
    Settles c (c.failItems exc pick items) :=
  of_micros (Conn.Micros.failItems c exc pick items : Conn.Micros .goaway c _)

theorem emit (hp : Hpack ε δ) (c : Conn ε δ) (sid : Nat) (fields : List Header) (body : Body) :
    Settles c (c.emit hp sid fields body).1 := by
  obtain ⟨writes, he⟩ := c.emit_state hp sid fields body
  rw [he]
  exact of_obj (List.Subset.refl _) rfl

theorem acquire (c : Conn ε δ) : Settles c c.acquire := by
  unfold Conn.acquire
  split <;> exact of_obj (List.Subset.refl _) rfl

theorem close (c : Conn ε δ) : Settles c c.close := by
  rcases c.close_cases with ⟨_, he⟩ | ⟨_, he⟩ | ⟨_, he⟩ <;> rw [he]
  · exact same c
  · exact of_obj (List.Subset.refl _) rfl
  · refine ⟨List.Subset.refl _, ?_⟩
    exact (failItems { c with closed := true } (.connectionError "connection closed") _ c.streams).done

end Settles

namespace Threads

variable {hp : Hpack ε δ} {s : Threads ε δ}

-- Uninterrupted, the sections of a send are the send of the connection.
theorem send_uninterrupted {t : Nat} {args : SendArgs} {fields : List Header}
    (hidle : s.sender t = .idle) (hlock : s.lock = none) (hopen : s.conn.closed = false)
    (hfields : args.fields = some fields) :
    Transition.run (step hp) s [.check t args, .allocate t, .register t, .write t] =
      some { s with conn := (s.conn.send hp args).1 } := by
  have hsend : (s.conn.send hp args).1 =
      ((s.conn.allocate.register s.conn.nextId args.maxBytes).emit hp s.conn.nextId fields
        args.body).1.release := by
    rw [Conn.send_fst]
    rcases s.conn.trySend_cases hp args with ⟨hno, _⟩ | ⟨fields', _, hf, he⟩
    · simp [hopen, hfields] at hno
    · obtain rfl := Option.some.inj (hfields.symm.trans hf)
      rw [he]
  have hsender : Function.update s.sender t .idle = s.sender := by
    rw [← hidle]
    exact Function.update_eq_self t s.sender
  simp [Transition.run, step, check, allocate, register, write, setSender, hidle, hlock, hopen, hfields,
    hsend, hsender]

theorem failing_run (exc : Exn) (items : List Nat) :
    Transition.run (step hp) { s with reader := .failing exc items }
        (List.replicate items.length .reader) =
      some { s with
        conn := s.conn.failItems exc (fun _ => true) items, reader := .failing exc [] } := by
  induction items generalizing s with
  | nil => rfl
  | cons sid items ih =>
      rw [List.length_cons, List.replicate_succ]
      exact ih (s := { s with conn := s.conn.failItems exc (fun _ => true) [sid] })

theorem sweeping_run (f : Frame) (items : List Nat) :
    Transition.run (step hp) { s with reader := .sweeping f items }
        (List.replicate items.length .reader) =
      some { s with
        conn := s.conn.failItems (Conn.goawayError f) (fun sid => Conn.goawayLastSid f < sid) items
        reader := .sweeping f [] } := by
  induction items generalizing s with
  | nil => rfl
  | cons sid items ih =>
      rw [List.length_cons, List.replicate_succ]
      exact ih (s := { s with
        conn := s.conn.failItems (Conn.goawayError f) (fun sid => Conn.goawayLastSid f < sid) [sid] })

-- So are those of `_fail_all` the end of the reader, and those of GOAWAY its dispatch.
theorem failAll_uninterrupted (exc : Exn) :
    Transition.run (step hp) { s with reader := .raised exc }
        (.reader :: .reader :: (List.replicate s.conn.streams.length .reader ++ [.reader])) =
      some { s with conn := s.conn.exitReader exc, reader := .finished } := by
  have hrun := @failing_run ε δ hp { s with conn := { s.conn with closed := true } } exc
    s.conn.streams
  have hfin : ∀ c : Conn ε δ, Transition.run (step hp) { s with conn := c, reader := .failing exc [] }
      [.reader] = some { s with
        conn := { c with reading := false, tp := { c.tp with live := false } }, reader := .finished } :=
    fun _ => rfl
  change Transition.run (step hp) { s with
    conn := { s.conn with closed := true }, reader := .failing exc s.conn.streams } _ = _
  rw [Transition.run_append, hrun, Option.bind_some, hfin]
  rfl

theorem goaway_uninterrupted {f : Frame} (hreading : s.reader = .reading) (hwire : f.onWire)
    (hf : f.ftype = .goaway) :
    Transition.run (step hp) s
        (.frame f :: .reader :: (List.replicate s.conn.streams.length .reader ++ [.reader])) =
      some { s with
        conn := s.conn.onGoaway f, reader := .reading
        snapped := Conn.goawayLastSid f :: s.snapped
        dispatched := Conn.goawayLastSid f :: s.dispatched } := by
  have hmark : step hp s (.frame f) = some { s with conn := s.conn.markGoaway f, reader := .marked f } := by
    simp [step, frame, hreading, hwire, hf]
  have hrun := @sweeping_run ε δ hp { s with
    conn := s.conn.markGoaway f, snapped := Conn.goawayLastSid f :: s.snapped } f s.conn.streams
  rw [Transition.run, hmark, Option.bind_some]
  change Transition.run (step hp) { s with
    conn := s.conn.markGoaway f, snapped := Conn.goawayLastSid f :: s.snapped
    reader := .sweeping f s.conn.streams } _ = _
  rw [Transition.run_append, hrun]
  rfl

end Threads

end NeverFox.H2
