/-
  AfIpc.Ipc.Rollback

  What a send that fails leaves.  A request is linked at the head of its table and
  taken out again by number, from the head on; so the record that goes is the one
  just linked, whatever numbers are pending behind it, and its timer goes by
  address.  Only the last sequence id may have moved.
-/

import AfIpc.Ipc.RequestSpec

namespace AfIpc.Ipc

open AfIpc.Lib

/-- The ways in which `af_ipc_send` fails. -/
inductive SendFails (rc : Option ReqControl) (txBufferSize timeoutMs : Int) (env : SendEnv) : Prop
  | oversize (h : oversize txBufferSize = true)
  | noTable (ht : 0 < timeoutMs) (h : rc = none)
  | noRequest (ht : 0 < timeoutMs) (h : env.alloc = false)
  | noTimer (ht : 0 < timeoutMs) (h : env.timer = false)
  | sendmsg (h : env.sendmsg = false)

/-- The pending requests, in order, and the timers are as before; so is the rest,
    but for the last sequence id. -/
structure Intact (rc : Option ReqControl) (base : EventBase) (r : SendResult) : Prop where
  none : rc = none → r.rc = none
  table : ∀ t, rc = some t → ∃ lastSeqId, r.rc = some { t with lastSeqId := lastSeqId }
  timers : r.base.events = base.events

section Send

variable {rc : Option ReqControl} {base : EventBase} {seqNum : BitVec 32} {txBuffer : List Byte}
  {txBufferSize : Int} {callback : Option Callback} {context : Context} {timeoutMs : Int}
  {env : SendEnv}

theorem sendFails_iff :
    SendFails rc txBufferSize timeoutMs env ↔ sendSucceeds rc txBufferSize timeoutMs env = false := by
  refine ⟨?_, ?_⟩
  · intro h
    cases h with
    | oversize h => simp [sendSucceeds, h]
    | noTable ht h =>
        have hpos : ¬ timeoutMs ≤ 0 := by omega
        simp [sendSucceeds, h, hpos]
    | noRequest ht h =>
        have hpos : ¬ timeoutMs ≤ 0 := by omega
        simp [sendSucceeds, h, hpos]
    | noTimer ht h =>
        have hpos : ¬ timeoutMs ≤ 0 := by omega
        simp [sendSucceeds, h, hpos]
    | sendmsg h => simp [sendSucceeds, h]
  · intro h
    by_cases hover : oversize txBufferSize = true
    · exact .oversize hover
    by_cases hmsg : env.sendmsg = false
    · exact .sendmsg hmsg
    rw [Bool.not_eq_true] at hover
    rw [Bool.not_eq_false] at hmsg
    by_cases ht : 0 < timeoutMs
    · have hpos : ¬ timeoutMs ≤ 0 := by omega
      cases rc with
      | none => exact .noTable ht rfl
      | some table =>
          by_cases halloc : env.alloc = false
          · exact .noRequest ht halloc
          refine .noTimer ht ?_
          rw [Bool.not_eq_false] at halloc
          simpa [sendSucceeds, hover, hmsg, hpos, halloc] using h
    · have hle : timeoutMs ≤ 0 := by omega
      simp [sendSucceeds, hover, hmsg, hle] at h

/-- **A send that fails takes everything back**, for any table on which nothing lies
    at the addresses that are about to be handed out. -/
theorem afIpcSend_failed (hfresh : ∀ table, rc = some table → Fresh table base) :
    ((afIpcSend rc base seqNum txBuffer txBufferSize callback context timeoutMs env).ret ≠ 0 ↔
      SendFails rc txBufferSize timeoutMs env) ∧
    (SendFails rc txBufferSize timeoutMs env →
      (afIpcSend rc base seqNum txBuffer txBufferSize callback context timeoutMs env).ret = -1 ∧
        Intact rc base
          (afIpcSend rc base seqNum txBuffer txBufferSize callback context timeoutMs env)) := by
  have hret := @afIpcSend_ret rc base seqNum txBuffer txBufferSize callback context timeoutMs env
  rw [sendFails_iff]
  refine ⟨?_, ?_⟩
  · rw [hret]
    cases sendSucceeds rc txBufferSize timeoutMs env <;> simp
  · intro hs
    obtain ⟨errno, packet, rc', next, hsend, -, -, hrc⟩ :=
      @afIpcSend_fail rc base seqNum txBuffer txBufferSize callback context timeoutMs env hs hfresh
    rw [hsend]
    refine ⟨rfl, ?_, ?_, rfl⟩
    · rintro rfl
      rcases hrc with rfl | ⟨table, hnone, -⟩
      · rfl
      · cases hnone
    · rintro t rfl
      rcases hrc with rfl | ⟨table, hsome, rfl⟩
      · exact ⟨t.lastSeqId, rfl⟩
      · obtain rfl := Option.some.inj hsome
        exact ⟨_, rfl⟩

end Send

/-- A table in which the next id, 1 after the wrap, is that of a pending request. -/
def wrappedTable : ReqControl where
  lastSeqId := 32767
  mutexCreated := true
  pendingRequests := [⟨5, 2, some 6, 1000, some 1, 0⟩, ⟨3, 1, some 4, 1000, some 1, 0⟩]

/-- The `sendmsg` of a second request numbered 1 fails. -/
theorem afIpcSend_failed_wrapped :
    SendFails (some wrappedTable) 1 1000 ⟨true, true, 0, false, 32⟩ ∧
      (afIpcSend (some wrappedTable) ⟨[⟨6, .request 5, true⟩, ⟨4, .request 3, true⟩], 7⟩ 0 [9] 1
        (some 1) 0 1000 ⟨true, true, 0, false, 32⟩).ret = -1 ∧
      Intact (some wrappedTable) ⟨[⟨6, .request 5, true⟩, ⟨4, .request 3, true⟩], 7⟩
        (afIpcSend (some wrappedTable) ⟨[⟨6, .request 5, true⟩, ⟨4, .request 3, true⟩], 7⟩ 0 [9] 1
          (some 1) 0 1000 ⟨true, true, 0, false, 32⟩) := by
  have hfresh : ∀ table, some wrappedTable = some table →
      Fresh table ⟨[⟨6, .request 5, true⟩, ⟨4, .request 3, true⟩], 7⟩ := by
    intro table htable
    obtain rfl := Option.some.inj htable
    exact ⟨by decide, by decide⟩
  have hfails : SendFails (some wrappedTable) 1 1000 ⟨true, true, 0, false, 32⟩ := .sendmsg rfl
  exact ⟨hfails, (afIpcSend_failed hfresh).2 hfails⟩

end AfIpc.Ipc
