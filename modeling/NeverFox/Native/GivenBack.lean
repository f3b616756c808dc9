import NeverFox.Native.Handles

namespace NeverFox.Native

open NeverFox.Client (NativeCall)

variable {Addr : Type}

-- A log that keeps to the rules for handles, and what is held behind it.
structure Honest (log : List (Act Addr)) (held : Finset Handle) : Prop where
  spends : Ledger.Spends (log.flatMap Act.entries) ∅ held
  bounded : ∀ a ∈ log, ∀ e ∈ a.entries, e.handle.number < log.length

namespace Honest

variable {log : List (Act Addr)} {held held' : Finset Handle} {h : Handle} {a : Act Addr}

theorem nil : Honest ([] : List (Act Addr)) ∅ := ⟨.nil ∅, fun _ ha => absurd ha List.not_mem_nil⟩

theorem snoc (hs : Honest log held) (hspends : Ledger.Spends a.entries held held')
    (hnumber : ∀ e ∈ a.entries, e.handle.number ≤ log.length) : Honest (log ++ [a]) held' where
  spends := by
    rw [List.flatMap_append, List.flatMap_singleton]
    exact hs.spends.append hspends
  bounded b hb e he := by
    rw [List.length_append, List.length_singleton]
    cases List.mem_append.mp hb with
    | inl hold =>
        have := hs.bounded b hold e he
        omega
    | inr hnew =>
        obtain rfl := List.mem_singleton.mp hnew
        have := hnumber e he
        omega

theorem held_lt (hs : Honest log held) (hh : h ∈ held) : h.number < log.length := by
  have haccount := hs.spends.account h
  rw [if_neg (Finset.notMem_empty h), if_pos hh] at haccount
  have hpos : 0 < (log.flatMap Act.entries).count (.acquire h) := by omega
  obtain ⟨b, hb, hacquire⟩ := List.mem_flatMap.mp (List.count_pos_iff.mp hpos)
  exact hs.bounded b hb _ hacquire

theorem fresh (hs : Honest log held) (hnumber : h.number = log.length) : h ∉ held := by
  intro hh
  have := hs.held_lt hh
  omega

theorem quiet (hs : Honest log held) (ha : a.entries = []) : Honest (log ++ [a]) held :=
  hs.snoc (by rw [ha]; exact .nil held) (by simp [ha])

theorem use (hs : Honest log held) (hh : h ∈ held) (ha : a.entries = [.use h]) :
    Honest (log ++ [a]) held := by
  refine hs.snoc ?_ ?_
  · rw [ha]
    have huses : ∀ i ∈ [h], i ∈ held := fun i hi => List.mem_singleton.mp hi ▸ hh
    exact Ledger.Spends.uses huses
  · have := hs.held_lt hh
    simp only [ha, List.forall_mem_singleton]
    exact Nat.le_of_lt this

theorem acquire (hs : Honest log held) (ha : a.entries = [.acquire h]) (hnumber : h.number = log.length) :
    Honest (log ++ [a]) (insert h held) := by
  refine hs.snoc ?_ ?_
  · rw [ha]
    exact .acquire (hs.fresh hnumber)
  · simp only [ha, List.forall_mem_singleton]
    exact Nat.le_of_eq hnumber

theorem release (hs : Honest log held) (hh : h ∈ held) (ha : a.entries = [.release h]) :
    Honest (log ++ [a]) (held.erase h) := by
  refine hs.snoc ?_ ?_
  · rw [ha]
    exact .release hh
  · have := hs.held_lt hh
    simp only [ha, List.forall_mem_singleton]
    exact Nat.le_of_lt this

-- What is got from an attempt to connect, and from one to secure a connection.
def tcpHandles : Option (Nat × Socket) → Finset Handle
  | none => ∅
  | some (fd, _) => {.fd fd}

def ctxHandles : Except Failure Ctx → Finset Handle
  | .ok c => {.fd c.fd, .ctx c.number}
  | .error _ => ∅

theorem tcpLoop {n : Nspr Addr} {ai port timeout : Nat} (addrs : List Addr) (hs : Honest log held)
    (hai : .addrInfo ai ∈ held) :
    Honest (tcpLoop n ai port timeout addrs log).2
      (tcpHandles (tcpLoop n ai port timeout addrs log).1 ∪ held) := by
  induction addrs generalizing log with
  | nil =>
      show Honest _ (∅ ∪ held)
      rw [Finset.empty_union]
      exact hs.use hai rfl
  | cons addr addrs ih =>
      have hnamed : Honest (log ++ [.enumerateAddrInfo ai (some addr)]) held := hs.use hai rfl
      unfold Native.tcpLoop
      dsimp only
      split
      · have hopened := hnamed.acquire (h := .fd _) (a := .openTcpSocket addr (some _)) rfl rfl
        split
        · rw [tcpHandles, ← Finset.insert_eq]
          exact hopened.use (Finset.mem_insert_self ..) rfl
        · have hclosed := (hopened.use (a := .connect _ addr port timeout false)
            (Finset.mem_insert_self ..) rfl).release (Finset.mem_insert_self ..)
            (a := .close (log ++ [Act.enumerateAddrInfo ai (some addr)]).length) rfl
          rw [Finset.erase_insert (hnamed.fresh rfl)] at hclosed
          simp only [List.append_assoc, List.cons_append, List.nil_append] at hclosed ⊢
          exact ih hclosed
      · exact ih (hnamed.quiet rfl)

theorem tcp {n : Nspr Addr} (hs : Honest log held) (host : CString) (port timeout : Nat) :
    Honest (fxtlsTcp n host port timeout log).2
      (tcpHandles (fxtlsTcp n host port timeout log).1 ∪ held) := by
  unfold fxtlsTcp
  split
  · show Honest _ (∅ ∪ held)
    rw [Finset.empty_union]
    exact hs.quiet rfl
  · next addrs _ =>
    have hnamed := hs.acquire (h := .addrInfo _) (a := .getAddrInfoByName host (some _)) rfl rfl
    have htried : Honest (Native.tcpLoop n log.length (port % 65536) timeout addrs _).2 _ :=
      hnamed.tcpLoop addrs (Finset.mem_insert_self ..)
    have hfreed := htried.release (h := .addrInfo log.length) (a := .freeAddrInfo log.length)
      (Finset.mem_union_right _ (Finset.mem_insert_self ..)) rfl
    have hgot : .addrInfo log.length ∉ tcpHandles
        (Native.tcpLoop n log.length (port % 65536) timeout addrs
          (log ++ [.getAddrInfoByName host (some log.length)])).1 := by
      unfold tcpHandles
      split
      · exact Finset.notMem_empty _
      · simp
    rw [Finset.erase_union_distrib, Finset.erase_insert (hs.fresh rfl),
      Finset.erase_eq_of_notMem hgot] at hfreed
    exact hfreed

-- A descriptor that is not secured is closed.
theorem finish {n : Nspr Addr} {fd : Nat} (hs : Honest log (insert (.fd fd) held)) (hfd : .fd fd ∉ held)
    (host : CString) (verify : Bool) (hfits : (fxtlsFinish n fd host verify log).1 ≠ .error .overrun) :
    Honest (fxtlsFinish n fd host verify log).2 (ctxHandles (fxtlsFinish n fd host verify log).1 ∪ held) := by
  have hmem : Handle.fd fd ∈ insert (.fd fd) held := Finset.mem_insert_self ..
  -- What is behind a call that failed.
  have hrefused : ∀ (failed : Act Addr) (stage : String) {log : List (Act Addr)},
      Honest log (insert (.fd fd) held) → failed.entries = [.use (.fd fd)] →
        Honest (log ++ [failed, .setLast stage, .close fd]) (∅ ∪ held) := by
    intro failed stage log hs hfailed
    have hclosed := ((hs.use hmem hfailed).quiet (a := .setLast stage) rfl).release hmem
      (a := .close fd) rfl
    rw [Finset.erase_insert hfd] at hclosed
    rw [Finset.empty_union]
    simpa only [List.append_assoc, List.cons_append, List.nil_append] using hclosed
  unfold fxtlsFinish at hfits ⊢
  dsimp only at hfits ⊢
  split
  · have himported := hs.use (a := .importFd fd true) hmem rfl
    split
    · have hready : Honest (log ++ [.importFd fd true] ++ [.configure fd true, .setUrl fd host,
          .authCertificateHook fd verify, .resetHandshake fd, .clearSessionCache])
          (insert (.fd fd) held) := by
        have hready := ((((himported.use (a := .configure fd true) hmem rfl).use (a := .setUrl fd host) hmem
          rfl).use (a := .authCertificateHook fd verify) hmem rfl).use (a := .resetHandshake fd) hmem
            rfl).quiet (a := .clearSessionCache) rfl
        simpa only [List.append_assoc, List.cons_append, List.nil_append] using hready
      split
      · next himports hconfigures hhandshakes =>
        simp only [himports, hconfigures, hhandshakes, if_true] at hfits
        split
        · have hdone := hready.use (a := .forceHandshake fd true) hmem rfl
          have hallocated := hdone.acquire (h := .ctx _) (a := .calloc _) rfl rfl
          have hgot := hallocated.use (a := .getNextProto fd) (Finset.mem_insert_of_mem hmem) rfl
          rw [ctxHandles, Finset.insert_union, ← Finset.insert_eq, Finset.insert_comm]
          exact hgot
        · next hlong => rw [if_neg hlong] at hfits; exact absurd rfl hfits
      · exact hrefused _ _ hready rfl
    · exact hrefused _ _ himported rfl
  · exact hrefused _ _ hs rfl

theorem tunnel {n : Nspr Addr} {fd : Nat} (hs : Honest log (insert (.fd fd) held)) (hfd : .fd fd ∉ held)
    (tunnel : Except Failure Unit × Socket) (host : CString) (verify : Bool)
    (hfits : (throughTunnel n fd tunnel host verify log).1 ≠ .error .overrun) :
    Honest (throughTunnel n fd tunnel host verify log).2
      (ctxHandles (throughTunnel n fd tunnel host verify log).1 ∪ held) := by
  have hmem : Handle.fd fd ∈ insert (.fd fd) held := Finset.mem_insert_self ..
  have hsaid := hs.use (a := .tunnel fd tunnel.2.sent) hmem rfl
  unfold throughTunnel at hfits ⊢
  dsimp only at hfits ⊢
  split
  · next hok =>
    rw [hok] at hfits
    exact hsaid.finish hfd host verify hfits
  · have hclosed := hsaid.release (a := .close fd) hmem rfl
    rw [Finset.erase_insert hfd] at hclosed
    show Honest _ (∅ ∪ held)
    rw [Finset.empty_union]
    exact hclosed
  · next hoverrun =>
    rw [hoverrun] at hfits
    exact absurd rfl hfits

-- What a connect ends with, it holds, and nothing else that it got.
theorem perform {n : Nspr Addr} (hs : Honest log held) (call : NativeCall)
    (hfits : (perform n call log).1 ≠ .error .overrun) :
    Honest (Native.perform n call log).2 (ctxHandles (Native.perform n call log).1 ∪ held) := by
  have htcp := hs.tcp (n := n) (dialled call).1 (dialled call).2 (patience call)
  rw [perform_eq] at hfits ⊢
  cases hgot : fxtlsTcp n (dialled call).1 (dialled call).2 (patience call) log with
  | mk got mid =>
      rw [hgot] at htcp hfits
      cases got with
      | none =>
          dsimp only
          split
          · exact htcp.quiet rfl
          · rw [List.append_nil]
            exact htcp
      | some p =>
          obtain ⟨fd, s⟩ := p
          have hfd : .fd fd ∉ held := by
            obtain ⟨ai, tries, addr, hfd, _⟩ := fxtlsTcp_eq_some hgot
            intro hheld
            have := hs.held_lt hheld
            rw [hfd, List.length_append] at this
            simp only [Handle.number] at this
            omega
          rw [tcpHandles, ← Finset.insert_eq] at htcp
          dsimp only at hfits ⊢
          split
          · next hnone =>
            rw [hnone] at hfits
            exact htcp.finish hfd _ _ hfits
          · next introduce hsome =>
            rw [hsome] at hfits
            exact htcp.tunnel hfd _ _ _ hfits

end Honest

variable {n : Nspr Addr} {p p' : Process Addr} {held : Finset Handle}

theorem Transport.mem_handles {t : Transport} {h : Handle} :
    h ∈ t.handles ↔ ∃ c, t.ctx = some c ∧ (h = .fd c.fd ∨ h = .ctx c.number) := by
  unfold Transport.handles
  cases t.ctx with
  | none => simp
  | some c => simp

theorem Process.mem_handles {i : Nat} {h : Handle} :
    h ∈ p.handles i ↔ ∃ t, p.transports i = some t ∧ h ∈ t.handles := by
  unfold Process.handles
  cases p.transports i with
  | none => simp
  | some t => simp

-- The handles held are those of the transports, each of one of them.
structure Owned (n : Nspr Addr) (p : Process Addr) (held : Finset Handle) : Prop where
  sound : Honest p.log held
  owned : ∀ h, h ∈ held ↔ ∃ i, h ∈ p.handles i
  once : ∀ h i j, h ∈ p.handles i → h ∈ p.handles j → i = j
  unmade : ∀ i, p.made ≤ i → p.transports i = none
  setUp : ∀ i t c, p.transports i = some t → t.ctx = some c →
    ∃ before acts after, SetUp n t.call c acts ∧ p.log = before ++ acts ++ after

namespace Owned

theorem nil (n : Nspr Addr) : Owned n {} ∅ where
  sound := .nil
  owned h := by simp [Process.mem_handles]
  once h i j hi _ := by simp [Process.mem_handles] at hi
  unmade _ _ := rfl
  setUp _ _ _ ht := absurd ht.symm (Option.some_ne_none _)

section

variable {i : Nat} {t t' : Transport} {acts : List (Act Addr)}

theorem fd_mem (h : Owned n p held) (ht : p.transports i = some t) {c : Ctx} (hc : t.ctx = some c) :
    .fd c.fd ∈ held :=
  (h.owned _).mpr ⟨i, Process.mem_handles.mpr ⟨t, ht, Transport.mem_handles.mpr ⟨c, hc, .inl rfl⟩⟩⟩

theorem ctx_mem (h : Owned n p held) (ht : p.transports i = some t) {c : Ctx} (hc : t.ctx = some c) :
    .ctx c.number ∈ held :=
  (h.owned _).mpr ⟨i, Process.mem_handles.mpr ⟨t, ht, Transport.mem_handles.mpr ⟨c, hc, .inr rfl⟩⟩⟩

-- A transport holds no more than before.
theorem method (h : Owned n p held) (ht : p.transports i = some t) {held' : Finset Handle}
    (hsound : Honest (p.log ++ acts) held') (hctx : ∀ c, t'.ctx = some c → t.ctx = some c ∧ t'.call = t.call)
    (hheld : ∀ x, x ∈ held' ↔ x ∈ held ∧ (x ∈ t.handles → x ∈ t'.handles)) :
    Owned n (p.put i acts t') held' := by
  have hhandles : ∀ j x, x ∈ (p.put i acts t').handles j → x ∈ p.handles j := by
    intro j x hx
    obtain ⟨u, hu, hxu⟩ := Process.mem_handles.mp hx
    by_cases hj : j = i
    · subst hj
      obtain rfl := Option.some.inj ((p.put_same ..).symm.trans hu)
      obtain ⟨c, hc, hx⟩ := Transport.mem_handles.mp hxu
      exact Process.mem_handles.mpr ⟨t, ht, Transport.mem_handles.mpr ⟨c, (hctx c hc).1, hx⟩⟩
    · exact Process.mem_handles.mpr ⟨u, (p.put_other hj ..).symm.trans hu, hxu⟩
  refine ⟨hsound, fun x => ?_, fun x j k hj hk => h.once x j k (hhandles j x hj) (hhandles k x hk),
    fun j hj => ?_, fun j u c hu hc => ?_⟩
  · rw [hheld, h.owned]
    constructor
    · rintro ⟨⟨j, hj⟩, hkept⟩
      refine ⟨j, Process.mem_handles.mpr ?_⟩
      obtain ⟨u, hu, hxu⟩ := Process.mem_handles.mp hj
      by_cases hji : j = i
      · subst hji
        obtain rfl := Option.some.inj (ht.symm.trans hu)
        exact ⟨t', p.put_same .., hkept hxu⟩
      · exact ⟨u, (p.put_other hji ..).trans hu, hxu⟩
    · rintro ⟨j, hj⟩
      refine ⟨⟨j, hhandles j x hj⟩, fun hxt => ?_⟩
      obtain rfl := h.once x j i (hhandles j x hj) (Process.mem_handles.mpr ⟨t, ht, hxt⟩)
      obtain ⟨u, hu, hxu⟩ := Process.mem_handles.mp hj
      obtain rfl := Option.some.inj ((p.put_same ..).symm.trans hu)
      exact hxu
  · have hji : j ≠ i := by
      rintro rfl
      rw [h.unmade j hj] at ht
      cases ht
    exact (p.put_other hji ..).trans (h.unmade j hj)
  · have hold : ∃ u', p.transports j = some u' ∧ u'.ctx = some c ∧ u.call = u'.call := by
      by_cases hji : j = i
      · subst hji
        obtain rfl := Option.some.inj ((p.put_same ..).symm.trans hu)
        exact ⟨t, ht, hctx c hc⟩
      · exact ⟨u, (p.put_other hji ..).symm.trans hu, hc, rfl⟩
    obtain ⟨u', hu', hc', hcall⟩ := hold
    obtain ⟨before, set, after, hset, hlog⟩ := h.setUp j u' c hu' hc'
    refine ⟨before, set, after ++ acts, hcall ▸ hset, ?_⟩
    simp only [Process.put, hlog, List.append_assoc]

-- Where it holds what it held, the calls in between have only used that.
theorem keep (h : Owned n p held) (ht : p.transports i = some t) (hsound : Honest (p.log ++ acts) held)
    (hctx : t'.ctx = t.ctx) (hcall : t'.call = t.call) : Owned n (p.put i acts t') held := by
  refine h.method ht hsound (fun c hc => ⟨hctx ▸ hc, hcall⟩) fun x => ?_
  have hsame : t'.handles = t.handles := by
    unfold Transport.handles
    rw [hctx]
  rw [hsame]
  exact (and_iff_left id).symm

theorem uses (h : Owned n p held) (ht : p.transports i = some t) {calls : Ctx → List (Act Addr)}
    (hcalls : ∀ c, t.ctx = some c → Honest (p.log ++ calls c) held) (hctx : t'.ctx = t.ctx)
    (hcall : t'.call = t.call) : Owned n (p.put i (t.ctx.elim [] calls) t') held := by
  refine h.keep ht ?_ hctx hcall
  cases hc : t.ctx with
  | none =>
      rw [Option.elim_none, List.append_nil]
      exact h.sound
  | some c => exact hcalls c hc

theorem close (h : Owned n p held) (ht : p.transports i = some t) :
    ∃ held', Owned n (p.put i t.close t.afterClose) held' := by
  cases hc : t.ctx with
  | none =>
      refine ⟨held, h.keep ht ?_ hc.symm rfl⟩
      rw [show t.close = ([] : List (Act Addr)) by rw [Transport.close, hc]; rfl, List.append_nil]
      exact h.sound
  | some c =>
      have hfd := h.fd_mem ht hc
      have hctx := h.ctx_mem ht hc
      have hshut : Honest (p.log ++ if t.peerEof then [.deref c.number, .shutdown c.fd] else []) held := by
        split
        · have hdone := (h.sound.use (a := .deref c.number) hctx rfl).use (a := .shutdown c.fd) hfd rfl
          simpa only [List.append_assoc, List.cons_append, List.nil_append] using hdone
        · rw [List.append_nil]
          exact h.sound
      have hclosed := ((hshut.use (a := .deref c.number) hctx rfl).release (a := .close c.fd) hfd rfl).release
        (h := .ctx c.number) (a := .free c.number) (Finset.mem_erase.mpr ⟨by simp, hctx⟩) rfl
      refine ⟨(held.erase (.fd c.fd)).erase (.ctx c.number), h.method ht ?_ nofun fun x => ?_⟩
      · rw [Transport.close, hc, Option.elim_some]
        simpa only [List.append_assoc, List.cons_append, List.nil_append] using hclosed
      · simp only [Finset.mem_erase, Transport.mem_handles, Transport.afterClose, hc, Option.some.injEq,
          exists_eq_left', reduceCtorEq, false_and, exists_false, imp_false]
        tauto

end

-- A context that was got is that of a new transport.
theorem made (h : Owned n p held) {call : NativeCall} {c : Ctx} {acts : List (Act Addr)}
    (hfd : p.log.length ≤ c.fd) (hnumber : p.log.length ≤ c.number) (hset : SetUp n call c acts)
    (hsound : Honest (p.log ++ acts) (Honest.ctxHandles (.ok c) ∪ held)) :
    Owned n (p.add (p.log ++ acts) { call := call, ctx := some c }) (Honest.ctxHandles (.ok c) ∪ held) := by
  have hnew : ∀ x, x ∈ Transport.handles { call := call, ctx := some c } → p.log.length ≤ x.number := by
    intro x hx
    obtain ⟨d, hd, rfl | rfl⟩ := Transport.mem_handles.mp hx
    · obtain rfl := Option.some.inj hd
      exact hfd
    · obtain rfl := Option.some.inj hd
      exact hnumber
  have hold : ∀ j x, x ∈ p.handles j → j ≠ p.made ∧ x.number < p.log.length := by
    intro j x hx
    refine ⟨?_, h.sound.held_lt ((h.owned x).mpr ⟨j, hx⟩)⟩
    rintro rfl
    obtain ⟨t, ht, _⟩ := Process.mem_handles.mp hx
    rw [h.unmade p.made (Nat.le_refl _)] at ht
    cases ht
  have hhandles : ∀ j x, x ∈ (p.add (p.log ++ acts) { call := call, ctx := some c }).handles j ↔
      (j = p.made ∧ x ∈ Transport.handles { call := call, ctx := some c }) ∨ x ∈ p.handles j := by
    intro j x
    constructor
    · intro hx
      obtain ⟨u, hu, hxu⟩ := Process.mem_handles.mp hx
      by_cases hj : j = p.made
      · subst hj
        obtain rfl := Option.some.inj ((p.add_made ..).symm.trans hu)
        exact .inl ⟨rfl, hxu⟩
      · exact .inr (Process.mem_handles.mpr ⟨u, (p.add_other hj ..).symm.trans hu, hxu⟩)
    · rintro (⟨rfl, hx⟩ | hx)
      · exact Process.mem_handles.mpr ⟨_, p.add_made .., hx⟩
      · obtain ⟨u, hu, hxu⟩ := Process.mem_handles.mp hx
        exact Process.mem_handles.mpr ⟨u, (p.add_other (hold j x hx).1 ..).trans hu, hxu⟩
  refine ⟨hsound, fun x => ?_, fun x j k hj hk => ?_, fun j hj => ?_, fun j t d ht hd => ?_⟩
  · rw [Finset.mem_union, h.owned]
    simp only [hhandles, exists_or, exists_eq_left]
    rfl
  · obtain ⟨rfl, hx⟩ | hj := (hhandles j x).mp hj
    · obtain ⟨rfl, _⟩ | hk := (hhandles k x).mp hk
      · rfl
      · have := hnew x hx
        have := (hold k x hk).2
        omega
    · obtain ⟨rfl, hx⟩ | hk := (hhandles k x).mp hk
      · have := hnew x hx
        have := (hold j x hj).2
        omega
      · exact h.once x j k hj hk
  · have hj : p.made + 1 ≤ j := hj
    exact (p.add_other (by omega) ..).trans (h.unmade j (by omega))
  · by_cases hj : j = p.made
    · subst hj
      obtain rfl := Option.some.inj ((p.add_made ..).symm.trans ht)
      obtain rfl := Option.some.inj hd
      exact ⟨p.log, acts, [], hset, (List.append_nil _).symm⟩
    · obtain ⟨before, set, after, hset, hbefore⟩ := h.setUp j t d ((p.add_other hj ..).symm.trans ht) hd
      refine ⟨before, set, after ++ acts, hset, ?_⟩
      simp only [Process.add, hbefore, List.append_assoc]

theorem init (h : Owned n p held) {call : NativeCall} (hs : p.step n (.init call) = some p') :
    ∃ held', Owned n p' held' := by
  simp only [Process.step] at hs
  have hextends := perform_extends (n := n) call p.log
  have hsound := h.sound.perform (n := n) call
  cases hmade : perform n call p.log with
  | mk result log =>
      rw [hmade] at hs hextends hsound
      cases result with
      | error failure =>
          cases failure with
          | overrun => cases hs
          | refused =>
              obtain rfl := Option.some.inj hs
              obtain ⟨acts, rfl⟩ := hextends
              have hlog : Honest (p.log ++ acts) (∅ ∪ held) := hsound nofun
              rw [Finset.empty_union] at hlog
              refine ⟨held, hlog, h.owned, h.once, h.unmade, fun i t c ht hc => ?_⟩
              obtain ⟨before, set, after, hset, hbefore⟩ := h.setUp i t c ht hc
              refine ⟨before, set, after ++ acts, hset, ?_⟩
              simp only [hbefore, List.append_assoc]
      | ok c =>
          obtain rfl := Option.some.inj hs
          obtain ⟨hfd, hnumber, acts, hset, rfl⟩ := perform_eq_ok hmade
          exact ⟨_, h.made hfd hnumber hset (hsound nofun)⟩

theorem step (h : Owned n p held) {use : Use} (hs : p.step n use = some p') : ∃ held', Owned n p' held' := by
  cases use with
  | init call => exact h.init hs
  | alpn i =>
      obtain ⟨t, ht, rfl⟩ := Option.map_eq_some_iff.mp hs
      exact ⟨held, h.uses ht (fun c hc => h.sound.use (h.ctx_mem ht hc) rfl) rfl rfl⟩
  | write i data =>
      obtain ⟨t, ht, rfl⟩ := Option.map_eq_some_iff.mp hs
      refine ⟨held, h.uses ht (fun c hc => ?_) rfl rfl⟩
      rw [List.append_cons]
      exact (h.sound.use (h.ctx_mem ht hc) rfl).use (h.fd_mem ht hc) rfl
  | read i gone =>
      obtain ⟨t, ht, rfl⟩ := Option.map_eq_some_iff.mp hs
      refine ⟨held, h.uses ht (fun c hc => ?_) rfl rfl⟩
      rw [List.append_cons]
      exact (h.sound.use (h.ctx_mem ht hc) rfl).use (h.fd_mem ht hc) rfl
  | close i =>
      obtain ⟨t, ht, rfl⟩ := Option.map_eq_some_iff.mp hs
      exact h.close ht

end Owned

-- In every run every address list, socket and context is used only while it is
-- held and given back once at most, and those not given back are the ones of
-- the transports that are open. Each of these was connected and secured as it
-- was asked, to the server and not to the proxy, in one go.
theorem handles_given_back {uses : List Use} (hrun : Transition.run (Process.step n) {} uses = some p) :
    ∃ held, Ledger.Spends (p.log.flatMap Act.entries) ∅ held ∧
      (∀ h, h ∈ held ↔ ∃ i t c, p.transports i = some t ∧ t.ctx = some c ∧
        (h = .fd c.fd ∨ h = .ctx c.number)) ∧
      ∀ i t c, p.transports i = some t → t.ctx = some c →
        ∃ before acts after, SetUp n t.call c acts ∧ p.log = before ++ acts ++ after := by
  obtain ⟨held, h⟩ := Transition.invariant_always (fun p => ∃ held, Owned n p held)
    (fun p use p' ⟨held, h⟩ hs => h.step hs) ⟨∅, Owned.nil n⟩ hrun
  refine ⟨held, h.sound.spends, fun x => ?_, h.setUp⟩
  rw [h.owned]
  constructor
  · rintro ⟨i, hx⟩
    obtain ⟨t, ht, hxt⟩ := Process.mem_handles.mp hx
    obtain ⟨c, hc, hxc⟩ := Transport.mem_handles.mp hxt
    exact ⟨i, t, c, ht, hc, hxc⟩
  · rintro ⟨i, t, c, ht, hc, hx⟩
    exact ⟨i, Process.mem_handles.mpr ⟨t, ht, Transport.mem_handles.mpr ⟨c, hc, hx⟩⟩⟩

-- The first of two addresses does not answer.
def secondAddress : Nspr Nat where
  addresses _ := some [0, 1]
  opens _ := true
  connects time := if time = 3 then none else some openSocket
  imports _ := true
  configures _ := true
  handshakes _ := true
  nextProto _ := some [104, 50]
  stack _ := 0

def closedTwice : List Use :=
  [.init (.direct [97] 443 15 true), .alpn 0, .write 0 [1], .read 0 true, .close 0, .close 0]

theorem handles_given_back_closed :
    ∃ p, Transition.run (Process.step secondAddress) {} closedTwice = some p ∧
      Ledger.Spends (p.log.flatMap Act.entries) ∅ ∅ := by
  refine ⟨_, rfl, ?_⟩
  have hrun : Transition.run (Process.step secondAddress) {} closedTwice = some _ := rfl
  obtain ⟨held, hspends, hheld, _⟩ := handles_given_back hrun
  have hnone : held = ∅ := by
    refine Finset.eq_empty_of_forall_notMem fun h hh => ?_
    obtain ⟨i, t, c, ht, hc, _⟩ := (hheld h).mp hh
    by_cases hi : i = 0
    · subst hi
      obtain rfl := Option.some.inj ht
      cases hc
    · rw [Process.put_other _ hi, Process.put_other _ hi, Process.put_other _ hi, Process.put_other _ hi,
        Process.put_other _ hi] at ht
      cases (Process.add_other _ hi ..).symm.trans ht
  rw [hnone] at hspends
  exact hspends

end NeverFox.Native
