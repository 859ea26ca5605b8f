/-
  AfIpc.Ipc.PendingAge

  How long a request may stay pending.  The generator counts the sequence ids it hands
  out modulo 2^15 - 1, so that a new request gets the number of one that is pending
  exactly if a multiple of 32767 ids have been handed out since that one was registered.
  `Dated` keeps, for every pending request, the call that it was registered by.
-/

import Mathlib.Data.List.Induction
import Mathlib.Data.Nat.ModEq
import AfIpc.Ipc.Timers

namespace AfIpc.Ipc

open AfIpc.Lib

-- ============================================================================
-- Requests that wait
-- ============================================================================

/-- The call registers a request, which is pending when it returns. -/
def TableOp.leavesPending : TableOp → Bool
  | .send txBuffer txBufferSize callback context timeoutMs env =>
    (send txBuffer txBufferSize callback context timeoutMs env).registers && env.timer && env.sendmsg
  | .response _ => false
  | .timeout _ => false

/-- The request that is registered first behind the calls `before`, at the address to be
    handed out next, is pending behind the calls `during` that follow. -/
def StillPending (next : Nat) (before during : List TableOp) : Prop :=
  ∃ s t, run tableStep (initialTable next) before = .ok s ∧ run tableStep s during = .ok t ∧
    ∃ r ∈ t.rc.pendingRequests, r.ptr = s.base.next

/-- No request is registered while one waits since whose registration 32767 sequence
    ids, or a multiple of this, have been handed out, the new one's included. -/
def NoneOvertaken (next : Nat) (ops : List TableOp) : Prop :=
  ∀ before op during op' after, ops = before ++ op :: (during ++ op' :: after) →
    op.leavesPending = true → op'.leavesPending = true →
    32767 ∣ during.countP TableOp.registers + 1 → ¬ StillPending next before (op :: during)

-- ============================================================================
-- Steps
-- ============================================================================

section Steps

variable {s s' : TableState} {op : TableOp}

theorem leavesPending_iff (rc : ReqControl) {txBuffer : List Byte} {txBufferSize : Int}
    {callback : Option Callback} {context : Context} {timeoutMs : Int} {env : SendEnv} :
    (TableOp.send txBuffer txBufferSize callback context timeoutMs env).leavesPending = true ↔
      0 < timeoutMs ∧ sendSucceeds (some rc) txBufferSize timeoutMs env = true := by
  simp only [TableOp.leavesPending, TableOp.registers, sendSucceeds, Bool.and_eq_true,
    Bool.or_eq_true, decide_eq_true_eq, Option.isSome_some, true_and]
  refine ⟨?_, ?_⟩
  · rintro ⟨⟨⟨⟨hover, ht⟩, halloc⟩, htimer⟩, hmsg⟩
    exact ⟨ht, ⟨hover, hmsg⟩, .inr ⟨halloc, htimer⟩⟩
  · rintro ⟨ht, ⟨hover, hmsg⟩, hle | ⟨halloc, htimer⟩⟩
    · omega
    · exact ⟨⟨⟨⟨hover, ht⟩, halloc⟩, htimer⟩, hmsg⟩

theorem registers_of_leavesPending (h : op.leavesPending = true) : op.registers = true := by
  cases op with
  | send txBuffer txBufferSize callback context timeoutMs env =>
      simp only [TableOp.leavesPending, Bool.and_eq_true] at h
      exact h.1.1
  | response seqNum => cases h
  | timeout event => cases h

theorem numberFree_iff :
    NumberFree s op ↔
      (op.leavesPending = true → ∀ r ∈ s.rc.pendingRequests, r.seqNum ≠ newSeqNum s.rc) := by
  cases op with
  | send txBuffer txBufferSize callback context timeoutMs env =>
      rw [leavesPending_iff s.rc]
      exact and_imp.symm
  | response seqNum => exact ⟨fun _ => (nofun), fun _ => trivial⟩
  | timeout event => exact ⟨fun _ => (nofun), fun _ => trivial⟩

/-- What one call does to the generator, to the addresses and to the requests. -/
structure Moves (s : TableState) (op : TableOp) (s' : TableState) : Prop where
  last : s'.rc.lastSeqId = if op.registers then nextSeqId s.rc.lastSeqId else s.rc.lastSeqId
  next : s.base.next ≤ s'.base.next
  used : op.leavesPending = true → s.base.next < s'.base.next
  pending : ∀ r ∈ s'.rc.pendingRequests, r ∈ s.rc.pendingRequests ∨
    op.leavesPending = true ∧ r.ptr = s.base.next ∧ r.seqNum = newSeqNum s.rc

theorem tableStep_moves (h : TableInv s) (hstep : tableStep s op = .ok s') : Moves s op s' := by
  cases op with
  | send txBuffer txBufferSize callback context timeoutMs env =>
      obtain ⟨hlast, -⟩ := tableStep_send h.timers.fresh hstep
      simp only [tableStep, Except.ok.injEq] at hstep
      subst hstep
      by_cases hs : sendSucceeds (some s.rc) txBufferSize timeoutMs env = true
      · by_cases ht : 0 < timeoutMs
        · have hleaves : (TableOp.send txBuffer txBufferSize callback context timeoutMs
              env).leavesPending = true := (leavesPending_iff s.rc).mpr ⟨ht, hs⟩
          rw [afIpcSend_register hs ht h.timers.fresh] at hlast ⊢
          refine ⟨hlast, Nat.le_add_right _ 2, fun _ => Nat.lt_add_of_pos_right (by decide), ?_⟩
          intro r hr
          rcases List.mem_cons.mp hr with rfl | hold
          · exact .inr ⟨hleaves, rfl, rfl⟩
          · exact .inl hold
        · rw [afIpcSend_plain hs (by omega)] at hlast ⊢
          exact ⟨hlast, Nat.le_refl _,
            fun hleaves => absurd ((leavesPending_iff s.rc).mp hleaves).1 ht, fun r hr => .inl hr⟩
      · have hfresh : ∀ table, some s.rc = some table → Fresh table s.base := by
          rintro table ⟨⟩
          exact h.timers.fresh
        obtain ⟨errno, packet, rc', next, heq, hnext, -, hrc⟩ :=
          @afIpcSend_fail (some s.rc) s.base 0 txBuffer txBufferSize callback context timeoutMs env
            (by simpa using hs) hfresh
        rw [heq] at hlast ⊢
        refine ⟨hlast, hnext, fun hleaves => absurd ((leavesPending_iff s.rc).mp hleaves).2 hs, ?_⟩
        intro r hr
        rcases hrc with rfl | ⟨table, ⟨⟩, rfl⟩
        · exact .inl hr
        · exact .inl hr
  | response seqNum =>
      simp only [tableStep, Except.ok.injEq] at hstep
      subst hstep
      obtain ⟨hnext, hsub⟩ := @takeResponse_sub seqNum s.rc _ s.base _ _ rfl
      refine ⟨?_, Nat.le_of_eq hnext.symm, fun h => absurd h Bool.false_ne_true,
        fun r hr => .inl (hsub r hr)⟩
      unfold takeResponse
      split
      · rfl
      · rfl
  | timeout event =>
      cases htimer : s.base.timerOf event with
      | none =>
          simp only [tableStep, htimer, Except.ok.injEq] at hstep
          subst hstep
          exact ⟨rfl, Nat.le_refl _, fun h => absurd h Bool.false_ne_true, fun r hr => .inl hr⟩
      | some ptr =>
          obtain ⟨req, rc, base, -, -, -, hout, hown, hpending, -⟩ := h.firesOnOwn event ptr htimer
          rw [hown, Except.ok.injEq] at hstep
          subst hstep
          obtain ⟨hnext, -⟩ := afIpcOnTimeout_sub hout
          refine ⟨?_, Nat.le_of_eq hnext.symm, fun h => absurd h Bool.false_ne_true, fun r hr => ?_⟩
          · obtain ⟨-, rfl, -⟩ := afIpcOnTimeout_found hout
            rfl
          · have hold : r ∈ rc.pendingRequests := hr
            rw [hpending] at hold
            exact .inl (List.mem_of_mem_filter hold)

end Steps

-- ============================================================================
-- Where the numbers come from
-- ============================================================================

/-- The next id, modulo the number of ids. -/
theorem nextSeqId_modEq {last : BitVec 16} {n : Nat} (hlt : last.toNat < 2 ^ 15)
    (h : last.toNat ≡ n [MOD 32767]) : (nextSeqId last).toNat ≡ n + 1 [MOD 32767] := by
  rw [nextSeqId_toNat]
  unfold Nat.ModEq at h ⊢
  split_ifs <;> omega

/-- The pending requests behind the calls `before`, each with the call that it was
    registered by: its number counts the ids that had been handed out. -/
structure Dated (next : Nat) (before : List TableOp) (t : TableState) : Prop where
  run : run tableStep (initialTable next) before = .ok t
  inv : TableInv t
  last : t.rc.lastSeqId.toNat < 2 ^ 15
  count : t.rc.lastSeqId.toNat ≡ before.countP TableOp.registers [MOD 32767]
  born : ∀ r ∈ t.rc.pendingRequests, ∃ b op during s, before = b ++ op :: during ∧
    op.leavesPending = true ∧ Lib.run tableStep (initialTable next) b = .ok s ∧ r.ptr = s.base.next
  /-- Addresses grow, so that they tell the requests apart. -/
  grows : ∀ b op during s, before = b ++ op :: during → op.leavesPending = true →
    Lib.run tableStep (initialTable next) b = .ok s → s.base.next < t.base.next
  number : ∀ b op during s, before = b ++ op :: during → op.leavesPending = true →
    Lib.run tableStep (initialTable next) b = .ok s → ∀ r ∈ t.rc.pendingRequests,
      r.ptr = s.base.next → r.seqNum.toNat ≡ b.countP TableOp.registers + 1 [MOD 32767]

theorem dated_initial (next : Nat) : Dated next [] (initialTable next) where
  run := rfl
  inv := tableInv_initial next
  last := Nat.zero_lt_succ _
  count := rfl
  born := fun _ hr => absurd hr List.not_mem_nil
  grows := fun _ _ _ _ h => by simp at h
  number := fun _ _ _ _ h => by simp at h

section Dated

variable {next : Nat} {before : List TableOp} {t : TableState} {op : TableOp}

/-- A call that has been made: the last one, or one before it. -/
theorem split_concat {b during : List TableOp} {op' : TableOp}
    (h : before ++ [op] = b ++ op' :: during) :
    (b = before ∧ op' = op) ∨ ∃ d, before = b ++ op' :: d := by
  rcases List.eq_nil_or_concat during with rfl | ⟨d, last, rfl⟩
  · obtain ⟨rfl, hop⟩ := List.append_inj' h rfl
    exact .inl ⟨rfl, (List.singleton_inj.mp hop).symm⟩
  · rw [List.concat_eq_append, ← List.cons_append, ← List.append_assoc] at h
    exact .inr ⟨d, (List.append_inj' h rfl).1⟩

/-- **One call** that registers no number which is pending. -/
theorem Dated.step (h : Dated next before t) (hfree : NumberFree t op) :
    ∃ t', tableStep t op = .ok t' ∧ Dated next (before ++ [op]) t' := by
  obtain ⟨t', hstep, hkeep, -⟩ := tableStep_inv h.inv op
  have hmoves := tableStep_moves h.inv hstep
  have hone : (before ++ [op]).countP TableOp.registers =
      before.countP TableOp.registers + if op.registers then 1 else 0 := by
    rw [List.countP_append, List.countP_singleton]
  have hnew : (nextSeqId t.rc.lastSeqId).toNat ≡
      before.countP TableOp.registers + 1 [MOD 32767] := nextSeqId_modEq h.last h.count
  refine ⟨t', hstep, ?_, hkeep hfree, ?_, ?_, ?_, ?_, ?_⟩
  · rw [run_append_of_ok h.run, run_cons, hstep]
    rfl
  · rw [hmoves.last]
    split_ifs
    · exact nextSeqId_lt _
    · exact h.last
  · rw [hmoves.last, hone]
    split_ifs
    · exact hnew
    · exact h.count
  · intro r hr
    rcases hmoves.pending r hr with hold | ⟨hleaves, hptr, -⟩
    · obtain ⟨b, op', during, s, hbefore, hrest⟩ := h.born r hold
      refine ⟨b, op', during ++ [op], s, ?_, hrest⟩
      rw [hbefore, List.append_assoc, List.cons_append]
    · exact ⟨before, op, [], t, rfl, hleaves, h.run, hptr⟩
  · intro b op' during s heq hleaves hrun
    rcases split_concat heq with ⟨rfl, rfl⟩ | ⟨d, hbefore⟩
    · obtain rfl : t = s := Except.ok.inj (h.run.symm.trans hrun)
      exact hmoves.used hleaves
    · exact Nat.lt_of_lt_of_le (h.grows b op' d s hbefore hleaves hrun) hmoves.next
  · intro b op' during s heq hleaves hrun r hr hptr
    rcases split_concat heq with ⟨rfl, rfl⟩ | ⟨d, hbefore⟩
    · obtain rfl : t = s := Except.ok.inj (h.run.symm.trans hrun)
      rcases hmoves.pending r hr with hold | ⟨-, -, hnum⟩
      · -- the address has just been handed out
        have hlt := h.inv.timers.fresh.requests r hold
        omega
      · rw [hnum, newSeqNum_toNat]
        exact hnew
    · rcases hmoves.pending r hr with hold | ⟨-, hlast, -⟩
      · exact h.number b op' d s hbefore hleaves hrun r hold hptr
      · have hlt := h.grows b op' d s hbefore hleaves hrun
        omega

/-- A number is pending that the next call registers exactly if a request waits since
    whose registration a multiple of 32767 ids have been handed out. -/
theorem Dated.numberFree_iff (h : Dated next before t) :
    NumberFree t op ↔ ∀ b op' during, before = b ++ op' :: during → op'.leavesPending = true →
      op.leavesPending = true → 32767 ∣ during.countP TableOp.registers + 1 →
        ¬ StillPending next b (op' :: during) := by
  have hnew : (newSeqNum t.rc).toNat ≡ before.countP TableOp.registers + 1 [MOD 32767] := by
    rw [newSeqNum_toNat]
    exact nextSeqId_modEq h.last h.count
  have hcount : ∀ (b during : List TableOp) (op' : TableOp), before = b ++ op' :: during →
      op'.leavesPending = true → before.countP TableOp.registers =
        b.countP TableOp.registers + 1 + during.countP TableOp.registers := by
    intro b during op' hbefore hleaves
    rw [hbefore, List.countP_append, List.countP_cons_of_pos (registers_of_leavesPending hleaves)]
    omega
  have hrest : ∀ {b during : List TableOp} {op' : TableOp} {s : TableState},
      before = b ++ op' :: during → Lib.run tableStep (initialTable next) b = .ok s →
        Lib.run tableStep s (op' :: during) = .ok t := by
    intro b during op' s hbefore hrun
    rw [← run_append_of_ok hrun, ← hbefore]
    exact h.run
  have hsame : ∀ r ∈ t.rc.pendingRequests, r.seqNum = newSeqNum t.rc ↔
      r.seqNum.toNat ≡ (newSeqNum t.rc).toNat [MOD 32767] := by
    intro r hr
    refine ⟨fun heq => by rw [heq], fun hmod => BitVec.eq_of_toNat_eq ?_⟩
    have hrange := h.inv.unique.range r hr
    have hpos := nextSeqId_pos t.rc.lastSeqId
    have hlt := nextSeqId_lt t.rc.lastSeqId
    rw [← newSeqNum_toNat] at hpos hlt
    unfold Nat.ModEq at hmod
    omega
  rw [Ipc.numberFree_iff]
  refine ⟨?_, ?_⟩
  · rintro hfree b op' during hbefore hleaves hop ⟨k, hk⟩ ⟨s, t', hrun, hrun', r, hr, hptr⟩
    -- the state that the request still waits in is the one behind the calls
    obtain rfl : t = t' := Except.ok.inj ((hrest hbefore hrun).symm.trans hrun')
    apply hfree hop r hr
    rw [hsame r hr]
    have hnum := h.number b op' during s hbefore hleaves hrun r hr hptr
    have hsum := hcount b during op' hbefore hleaves
    unfold Nat.ModEq at hnum hnew ⊢
    omega
  · intro hnone hop r hr heq
    obtain ⟨b, op', during, s, hbefore, hleaves, hrun, hptr⟩ := h.born r hr
    have hnum := h.number b op' during s hbefore hleaves hrun r hr hptr
    have hsum := hcount b during op' hbefore hleaves
    have hmod := (hsame r hr).mp heq
    apply hnone b op' during hbefore hleaves hop _ ⟨s, t, hrun, hrest hbefore hrun, r, hr, hptr⟩
    unfold Nat.ModEq at hnum hnew hmod
    omega

end Dated

-- ============================================================================
-- Runs
-- ============================================================================

/-- A conforming run dates its requests. -/
theorem dated_of_conforms {next : Nat} {ops : List TableOp}
    (h : ∀ before op after, ops = before ++ op :: after →
      ∀ t, Dated next before t → NumberFree t op) :
    ∀ before after, ops = before ++ after → ∃ t, Dated next before t := by
  intro before
  induction before using List.reverseRecOn with
  | nil => exact fun after _ => ⟨_, dated_initial next⟩
  | append_singleton before op ih =>
      intro after hops
      have hops' : ops = before ++ op :: after := by rw [hops, List.append_assoc]; rfl
      obtain ⟨t, ht⟩ := ih (op :: after) hops'
      obtain ⟨t', -, ht'⟩ := ht.step (h before op after hops' t ht)
      exact ⟨t', ht'⟩

theorem conforms_iff_noneOvertaken (next : Nat) (ops : List TableOp) :
    Conforms tableStep NumberFree (initialTable next) ops ↔ NoneOvertaken next ops := by
  rw [conforms_iff]
  refine ⟨?_, ?_⟩
  · intro hall before op during op' after hops hleaves hop hdvd
    have hops' : ops = (before ++ op :: during) ++ op' :: after := by
      rw [hops, List.append_assoc, List.cons_append]
    obtain ⟨t, ht⟩ := dated_of_conforms
      (fun b o a heq t ht => hall b o a heq t ht.run) (before ++ op :: during) (op' :: after) hops'
    exact ht.numberFree_iff.mp (hall _ op' after hops' t ht.run) before op during rfl hleaves hop hdvd
  · intro hnone
    have hfree : ∀ before op after, ops = before ++ op :: after →
        ∀ t, Dated next before t → NumberFree t op := by
      intro before op after hops t ht
      rw [ht.numberFree_iff]
      intro b op' during hbefore hleaves hop
      apply hnone b op' during op after _ hleaves hop
      rw [hops, hbefore, List.append_assoc, List.cons_append]
    intro before op after hops t hrun
    obtain ⟨t', ht'⟩ := dated_of_conforms hfree before (op :: after) hops
    obtain rfl : t' = t := Except.ok.inj (ht'.run.symm.trans hrun)
    exact hfree before op after hops t' ht'

/-- **Pending sequence numbers are unique** in every state of a run of a request table,
    and the lookups by number act on their own request, exactly if no request is
    registered while one is pending that 32767 registrations, or a multiple of this,
    have overtaken. -/
theorem pending_unique_iff (next : Nat) (ops : List TableOp) :
    NoneOvertaken next ops ↔
      ∀ before after, ops = before ++ after →
        ∃ s, run tableStep (initialTable next) before = .ok s ∧
          UniqueSeqNums s.rc ∧ ActsOnOwn s.rc := by
  rw [← conforms_iff_noneOvertaken]
  exact run_unique_iff (tableInv_initial next) ops

/-- A request that is answered at once, `n` times, the first with number `k`. -/
def answeredRequests : Nat → Nat → List TableOp
  | _, 0 => []
  | k, n + 1 =>
    oneByteRequest :: .response (BitVec.ofNat 32 k) :: answeredRequests (k + 1) n

/-- One request stays pending while `n` more are made and answered, and another
    is made. -/
def wrapAround (n : Nat) : List TableOp :=
  oneByteRequest :: (answeredRequests 2 n ++ [oneByteRequest])

theorem answeredRequests_run (n k : Nat) (req : Request) (s : TableState)
    (hpending : s.rc.pendingRequests = [req]) (hfresh : Fresh s.rc s.base)
    (hlast : s.rc.lastSeqId.toNat + 1 = k) (hk : 2 ≤ k) (hmax : k + n ≤ 2 ^ 15) :
    ∃ t, run tableStep s (answeredRequests k n) = .ok t ∧ t.rc.pendingRequests = [req] ∧
      Fresh t.rc t.base ∧ t.rc.lastSeqId.toNat + 1 = k + n := by
  induction n generalizing k s with
  | zero => exact ⟨s, rfl, hpending, hfresh, by omega⟩
  | succ n ih =>
      have hnext : (nextSeqId s.rc.lastSeqId).toNat = s.rc.lastSeqId.toNat + 1 :=
        nextSeqId_of_lt (by omega)
      have hs : sendSucceeds (some s.rc) 1 1000 SendEnv.good = true := rfl
      -- the request takes the number `k`, and the response takes it out
      have hnum : newSeqNum s.rc = BitVec.ofNat 32 k := by
        apply BitVec.eq_of_toNat_eq
        rw [newSeqNum_toNat, hnext, BitVec.toNat_ofNat, Nat.mod_eq_of_lt (by omega)]
        exact hlast
      have hevents : ∀ e ∈ s.base.events, e.id < s.base.next + 1 :=
        fun e he => Nat.lt_succ_of_lt (hfresh.events e he)
      have htake : takeResponse (BitVec.ofNat 32 k) (registerIn s.rc s.base (some 0) 0 1000)
          (armTimer s.base) =
          (some (newRequest s.rc s.base (some 0) 0 1000),
            { s.rc with lastSeqId := nextSeqId s.rc.lastSeqId },
            { s.base with next := s.base.next + 2 }) := by
        have hfree : eventFree (s.base.next + 1) (armTimer s.base) =
            { s.base with next := s.base.next + 2 } := eventFree_head hevents
        have hremove := removeRequest_head { s.rc with lastSeqId := nextSeqId s.rc.lastSeqId }
          (newRequest s.rc s.base (some 0) 0 1000)
        rw [← hfree, ← hremove, ← hnum]
        simp [takeResponse, registerIn, newRequest, afIpcUtilFindUnusedRequest, eventFreeIf]
      obtain ⟨t, hrun, ht⟩ := ih (k + 1)
        ⟨{ s.rc with lastSeqId := nextSeqId s.rc.lastSeqId },
          { s.base with next := s.base.next + 2 }⟩ hpending
        ⟨fun r hr => Nat.lt_add_right 2 (hfresh.requests r hr),
          fun e he => Nat.lt_add_right 2 (hfresh.events e he)⟩
        (by show (nextSeqId s.rc.lastSeqId).toNat + 1 = k + 1; omega) (by omega) (by omega)
      refine ⟨t, ?_, ht.1, ht.2.1, by omega⟩
      have hsend := @afIpcSend_register s.rc s.base 0 [0] 1 (some 0) 0 1000 SendEnv.good hs
        (by decide) hfresh
      simp only [answeredRequests, oneByteRequest, run_cons, tableStep, hsend, Option.getD_some,
        bind, Except.bind, htake]
      exact hrun

theorem wrapAround_run (n : Nat) (hn : 2 + n = 2 ^ 15) :
    ∃ s, run tableStep (initialTable 0) (wrapAround n) = .ok s ∧ ¬ UniqueSeqNums s.rc := by
  have hfirst : tableStep (initialTable 0) oneByteRequest =
      .ok ⟨⟨1, true, [⟨0, 1, some 1, 1000, some 0, 0⟩]⟩, ⟨[⟨1, .request 0, true⟩], 2⟩⟩ := by
    rfl
  obtain ⟨t, hrun, hpending, hfresh, hlast⟩ := answeredRequests_run n 2
    ⟨0, 1, some 1, 1000, some 0, 0⟩
    ⟨⟨1, true, [⟨0, 1, some 1, 1000, some 0, 0⟩]⟩, ⟨[⟨1, .request 0, true⟩], 2⟩⟩ rfl
    ⟨by decide, by decide⟩ rfl (by decide) (by omega)
  have hs : sendSucceeds (some t.rc) 1 1000 SendEnv.good = true := rfl
  have hsend := @afIpcSend_register t.rc t.base 0 [0] 1 (some 0) 0 1000 SendEnv.good hs
    (by decide) hfresh
  -- the generator stands before its wrap
  have hnum : newSeqNum t.rc = 1 := by
    apply BitVec.eq_of_toNat_eq
    rw [newSeqNum_toNat, nextSeqId_toNat, if_pos (by omega)]
    rfl
  refine ⟨⟨registerIn t.rc t.base (some 0) 0 1000, armTimer t.base⟩, ?_, ?_⟩
  · rw [wrapAround, run_cons, hfirst]
    simp only [bind, Except.bind, run_append, hrun]
    simp only [oneByteRequest, run_cons, tableStep, hsend, Option.getD_some, bind, Except.bind,
      run_nil]
  · intro hu
    have hnodup := hu.nodup
    simp only [registerIn, hpending, newRequest, hnum, List.map_cons, List.map_nil] at hnodup
    exact absurd hnodup (by decide)

/-- After the wrap two requests with the number 1 are pending. -/
theorem wrapAround_not_unique :
    ∃ s, run tableStep (initialTable 0) (wrapAround 32766) = .ok s ∧ ¬ UniqueSeqNums s.rc :=
  wrapAround_run 32766 (by decide)

end AfIpc.Ipc
