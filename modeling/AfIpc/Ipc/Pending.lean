/-
  AfIpc.Ipc.Pending

  What becomes of a pending request.  `Turn` says what a step can do to the table of
  one connection and what is observed of it, whatever happens on the others.  As
  long as the connection has registered fewer than 2^15 requests its table is
  `Keyed`, and then a request that is pending stays so until the first of three
  things: a response with its number, which calls its callback; its timeout; or
  the end of the connection (`Fate`).
-/

import AfIpc.Ipc.Correlation

namespace AfIpc.Ipc

open AfIpc.Lib

-- ============================================================================
-- The table of one connection
-- ============================================================================

/-- The request table of the connection at the address, if it is live. -/
def Endpoint.table (h : Endpoint) (p : Nat) : Option ReqControl :=
  (h.conns.find? (fun c => c.ptr = p)).map Conn.table

/-- The call is about the requests of the connection, or ends it. -/
def Call.concerns (p : Nat) : Call → Bool
  | .frame q _ => q = p
  | .responseCallback q _ _ _ _ => q = p
  | .release q => q = p
  | c => c.isRequestOn p

section Table

variable {h : Endpoint} {c d : Conn} {p : Nat}

theorem table_of_mem (hl : Lives h) (hc : c ∈ h.conns) : h.table c.ptr = some c.table := by
  rw [Endpoint.table, find?_key hl.ptrs hc]
  rfl

theorem table_eq_none (hnone : ∀ c ∈ h.conns, c.ptr ≠ p) : h.table p = none := by
  have hfind : h.conns.find? (fun c => c.ptr = p) = none := by
    rw [List.find?_eq_none]
    intro c hc
    simpa using hnone c hc
  rw [Endpoint.table, hfind]
  rfl

theorem table_eq_some {rc : ReqControl} (h' : h.table p = some rc) :
    ∃ c ∈ h.conns, c.ptr = p ∧ c.table = rc := by
  obtain ⟨c, hc, hrc⟩ := Option.map_eq_some_iff.mp h'
  have hptr := List.find?_some hc
  exact ⟨c, List.mem_of_find?_eq_some hc, by simpa using hptr, hrc⟩

/-- Replacing the record of a connection replaces its table. -/
theorem table_setConn (hl : Lives h) (hc : c ∈ h.conns) (hptr : d.ptr = c.ptr) :
    (h.setConn d).table p = if p = c.ptr then some d.table else h.table p := by
  have hkey : ∀ e : Conn, (if e.ptr = d.ptr then d else e).ptr = e.ptr := by
    intro e
    split_ifs with he
    · exact he.symm
    · rfl
  have hfind : (h.setConn d).conns.find? (fun e => e.ptr = p) =
      (h.conns.find? (fun e => e.ptr = p)).map (fun e => if e.ptr = d.ptr then d else e) := by
    rw [Endpoint.setConn, List.find?_map]
    simp only [Function.comp_def, hkey]
  rw [Endpoint.table, hfind]
  by_cases hp : p = c.ptr
  · subst hp
    rw [find?_key hl.ptrs hc, if_pos rfl]
    simp only [Option.map_some, if_pos hptr.symm]
  · rw [if_neg hp, Endpoint.table]
    cases hold : h.conns.find? (fun e => e.ptr = p) with
    | none => rfl
    | some e =>
        have he := List.find?_some hold
        have hep : e.ptr = p := by simpa using he
        have hne : ¬ e.ptr = d.ptr := by
          rw [hep, hptr]
          exact hp
        simp only [Option.map_some, if_neg hne]

/-- A connection in front of the others. -/
theorem table_cons (c : Conn) (cid : BitVec 16) (base : EventBase) (trace : List Call) :
    Endpoint.table { conns := c :: h.conns, lastCid := cid, base := base, trace := trace } p =
      if p = c.ptr then some c.table else h.table p := by
  by_cases hp : p = c.ptr
  · rw [if_pos hp, Endpoint.table, List.find?_cons_of_pos (by simpa using hp.symm)]
    rfl
  · rw [if_neg hp, Endpoint.table, List.find?_cons_of_neg (by simpa using Ne.symm hp)]
    rfl

theorem table_without (q : Nat) : (h.without q).table p = if p = q then none else h.table p := by
  by_cases hp : p = q
  · subst hp
    rw [if_pos rfl]
    apply table_eq_none
    intro c hc
    exact (mem_without.mp hc).2
  · rw [if_neg hp, Endpoint.table, Endpoint.table, Endpoint.without, List.find?_filter]
    congr 2
    funext c
    by_cases hc : c.ptr = p
    · simp [hc, hp]
    · simp [hc]

end Table

-- ============================================================================
-- Tables whose numbers have not wrapped
-- ============================================================================

/-- A request table after the calls: its last number counts the requests sent, and
    its pending requests are known apart by number and by address, and wait. -/
structure KeyedTable (p : Nat) (trace : List Call) (rc : ReqControl) : Prop where
  last : rc.lastSeqId.toNat = requestsOn p trace
  range : ∀ r ∈ rc.pendingRequests, r.seqNum.toNat ≤ rc.lastSeqId.toNat
  seqNums : (rc.pendingRequests.map Request.seqNum).Nodup
  ptrs : (rc.pendingRequests.map Request.ptr).Nodup
  waits : ∀ r ∈ rc.pendingRequests, Waits trace p r

/-- What holds of the connection as long as it has registered fewer than 2^15
    requests. -/
structure Keyed (p : Nat) (h : Endpoint) : Prop where
  table : ∀ rc, h.table p = some rc → KeyedTable p h.trace rc
  unborn : h.base.next ≤ p → requestsOn p h.trace = 0
  called : ∀ req status seqNum payload,
    .responseCallback p req status seqNum payload ∈ h.trace → req.ptr < h.base.next

section Tables

variable {p : Nat} {trace calls : List Call} {rc : ReqControl} {req : Request}

theorem Waits.append (h : Waits trace p req) (h' : Waits calls p req) :
    Waits (trace ++ calls) p req := by
  intro req' status seqNum payload hmem
  rcases List.mem_append.mp hmem with hold | hnew
  · exact h req' status seqNum payload hold
  · exact h' req' status seqNum payload hnew

theorem waits_of_calm (hcalm : ∀ c ∈ calls, c.concerns p = false) : Waits calls p req := by
  intro req' status seqNum payload hmem
  have hcall := hcalm _ hmem
  simp [Call.concerns] at hcall

theorem requestsOn_of_calm (hcalm : ∀ c ∈ calls, c.concerns p = false) : requestsOn p calls = 0 := by
  rw [requestsOn, List.countP_eq_zero]
  intro c hc
  have hcall := hcalm c hc
  cases c with
  | sendmsg conn fd sentBy packet ok =>
      rw [show Call.isRequestOn p _ = false from hcall]
      exact Bool.false_ne_true
  | _ => exact Bool.false_ne_true

/-- A table that has not been used. -/
theorem KeyedTable.of_empty (hpending : rc.pendingRequests = []) (hlast : rc.lastSeqId = 0)
    (hcount : requestsOn p trace = 0) : KeyedTable p trace rc := by
  have hnone : ∀ r : Request, r ∉ rc.pendingRequests := by
    rw [hpending]
    exact fun r => List.not_mem_nil
  exact
    { last := by
        rw [hlast, hcount]
        rfl
      range := fun r hr => absurd hr (hnone r)
      seqNums := by
        rw [hpending]
        exact List.nodup_nil
      ptrs := by
        rw [hpending]
        exact List.nodup_nil
      waits := fun r hr => absurd hr (hnone r) }

/-- Calls that register nothing on the connection. -/
theorem KeyedTable.append (h : KeyedTable p trace rc) (hcount : requestsOn p calls = 0)
    (hwaits : ∀ r ∈ rc.pendingRequests, Waits calls p r) : KeyedTable p (trace ++ calls) rc where
  last := by
    rw [requestsOn_append, hcount]
    exact h.last
  range := h.range
  seqNums := h.seqNums
  ptrs := h.ptrs
  waits := fun r hr => (h.waits r hr).append (hwaits r hr)

/-- A request leaves the table. -/
theorem KeyedTable.without (h : KeyedTable p trace rc) (ptr : Nat) :
    KeyedTable p trace (rc.without ptr) where
  last := h.last
  range := fun r hr => h.range r (List.mem_of_mem_filter hr)
  seqNums := h.seqNums.sublist (List.filter_sublist.map _)
  ptrs := h.ptrs.sublist (List.filter_sublist.map _)
  waits := fun r hr => h.waits r (List.mem_of_mem_filter hr)

theorem mem_without_table {r : Request} {ptr : Nat} :
    r ∈ (rc.without ptr).pendingRequests ↔ r ∈ rc.pendingRequests ∧ r.ptr ≠ ptr := by
  simp [ReqControl.without]

/-- A response, or a timeout, takes its request out of the table. -/
theorem KeyedTable.takeResponse (h : KeyedTable p trace rc) {seqNum : BitVec 32} {rc' : ReqControl}
    {base base' : EventBase} (htake : takeResponse seqNum rc base = (some req, rc', base')) :
    req ∈ rc.pendingRequests ∧ req.seqNum = seqNum ∧ rc' = rc.without req.ptr := by
  obtain ⟨hmem, hnum, _⟩ := takeResponse_some htake
  subst hnum
  refine ⟨hmem, rfl, ?_⟩
  rw [← removeRequest_eq h.seqNums h.ptrs hmem]
  simp only [Ipc.takeResponse, find?_key h.seqNums hmem, Prod.mk.injEq] at htake
  exact htake.2.1.symm

theorem KeyedTable.onTimeout (h : KeyedTable p trace rc) {ptr : Nat} {rc' : ReqControl}
    {base base' : EventBase} (hout : afIpcOnTimeout ptr rc base = .ok (req, rc', base')) :
    req ∈ rc.pendingRequests ∧ rc' = rc.without req.ptr := by
  obtain ⟨hmem, rfl⟩ := afIpcOnTimeout_some hout
  rw [afIpcOnTimeout_eq h.seqNums h.ptrs hmem, Except.ok.injEq, Prod.mk.injEq,
    Prod.mk.injEq] at hout
  exact ⟨hmem, hout.2.1.symm⟩

/-- A request joins the table and is sent. -/
theorem KeyedTable.register (h : KeyedTable p trace rc) {base : EventBase} {fd : Int}
    {callback : Option Callback} {context : Context} {timeoutMs : Int} {packet : Packet}
    (hfresh : ∀ r ∈ rc.pendingRequests, r.ptr < base.next)
    (hcalled : ∀ req status seqNum payload,
      .responseCallback p req status seqNum payload ∈ trace → req.ptr < base.next)
    (hnum : packet.hdr.seqNum = newSeqNum rc ||| newRequestMask)
    (hbound : requestsOn p
      (trace ++ [.sendmsg p fd (.request callback context) packet true]) < 2 ^ 15) :
    KeyedTable p (trace ++ [.sendmsg p fd (.request callback context) packet true])
      (registerIn rc base callback context timeoutMs) := by
  have hone : requestsOn p [.sendmsg p fd (.request callback context) packet true] = 1 := by
    have hisnew : isNewRequest packet.hdr.seqNum = true := by
      rw [hnum]
      exact isNewRequest_or_mask _
    simp [requestsOn, Call.isRequestOn, hisnew]
  rw [requestsOn_append, hone] at hbound
  have hlast : (nextSeqId rc.lastSeqId).toNat = rc.lastSeqId.toNat + 1 := by
    apply nextSeqId_of_lt
    rw [h.last]
    omega
  have hnumber : (newSeqNum rc).toNat = rc.lastSeqId.toNat + 1 := by
    rw [newSeqNum_toNat, hlast]
  have hsend : ∀ r : Request,
      Waits [.sendmsg p fd (.request callback context) packet true] p r := by
    intro r req status seqNum payload hmem
    cases List.mem_singleton.mp hmem
  exact
    { last := by
        show (nextSeqId rc.lastSeqId).toNat = _
        rw [hlast, requestsOn_append, hone, h.last]
      range := by
        intro r hr
        show r.seqNum.toNat ≤ (nextSeqId rc.lastSeqId).toNat
        rcases List.mem_cons.mp hr with rfl | hr
        · rw [hlast, ← hnumber]
          exact Nat.le_refl _
        · have hle := h.range r hr
          omega
      seqNums := by
        refine List.nodup_cons.mpr ⟨fun hmem => ?_, h.seqNums⟩
        obtain ⟨r, hr, heq⟩ := List.mem_map.mp hmem
        have hle := h.range r hr
        have hnew : r.seqNum.toNat = rc.lastSeqId.toNat + 1 := by
          rw [heq]
          exact hnumber
        omega
      ptrs := by
        refine List.nodup_cons.mpr ⟨fun hmem => ?_, h.ptrs⟩
        obtain ⟨r, hr, heq⟩ := List.mem_map.mp hmem
        exact absurd heq (Nat.ne_of_lt (hfresh r hr))
      waits := by
        intro r hr
        refine Waits.append ?_ (hsend r)
        rcases List.mem_cons.mp hr with rfl | hr
        · intro req status seqNum payload hmem
          exact Nat.ne_of_lt (hcalled req status seqNum payload hmem)
        · exact h.waits r hr }

end Tables

-- ============================================================================
-- What a step does to it
-- ============================================================================

/-- What a step from the event base `base` does to the table of the connection at
    `p`, and the calls it makes. -/
inductive Turn (p : Nat) (base : EventBase) :
    Option ReqControl → Option ReqControl → List Call → Prop
  | calm {t : Option ReqControl} {calls : List Call}
      (hcalm : ∀ c ∈ calls, c.concerns p = false) : Turn p base t t calls
  | passed {rc : ReqControl} {f : Frame} {calls : List Call}
      (hf : f.IsNew ∨ ∀ r ∈ rc.pendingRequests, r.seqNum ≠ getSeqId f.seqNum)
      (hcalm : ∀ c ∈ calls, c.concerns p = false) :
      Turn p base (some rc) (some rc) (.frame p f :: calls)
  | born {rc : ReqControl} {calls : List Call} (hp : p = base.next)
      (hpending : rc.pendingRequests = []) (hlast : rc.lastSeqId = 0)
      (hcalm : ∀ c ∈ calls, c.concerns p = false) : Turn p base none (some rc) calls
  | registered {rc : ReqControl} {fd : Int} {callback : Option Callback} {context : Context}
      {timeoutMs : Int} {packet : Packet}
      (hnum : packet.hdr.seqNum = newSeqNum rc ||| newRequestMask) :
      Turn p base (some rc) (some (registerIn rc base callback context timeoutMs))
        [.sendmsg p fd (.request callback context) packet true]
  | answered {rc : ReqControl} {f : Frame} {req : Request} {calls : List Call}
      (hmem : req ∈ rc.pendingRequests) (hold : ¬ f.IsNew) (hnum : req.seqNum = getSeqId f.seqNum)
      (hcalls : calls = [] ∨ calls = [.responseCallback p req statusOk req.seqNum f.payload])
      (hheard : calls = [] → req.responseCallback = none) :
      Turn p base (some rc) (some (rc.without req.ptr)) (.frame p f :: calls)
  | timedOut {rc : ReqControl} {req : Request} {calls : List Call}
      (hmem : req ∈ rc.pendingRequests)
      (hcalls : calls = [] ∨ calls = [.responseCallback p req statusTimeout 0 []])
      (hheard : calls = [] → req.responseCallback = none) :
      Turn p base (some rc) (some (rc.without req.ptr)) calls
  | closed {rc : ReqControl} {calls : List Call} (hcalls : ∀ c ∈ calls, c.closing p = true)
      (hrelease : releasesOf p calls = 1) : Turn p base (some rc) none calls

section Step

variable {h h' : Endpoint} {p : Nat}

theorem concerns_of_inert {c : Call} (hc : c.inert = true) : c.concerns p = false := by
  cases c with
  | sendmsg conn fd sentBy packet ok =>
      cases ok with
      | true => cases hc
      | false => cases sentBy <;> rfl
  | _ => first | rfl | cases hc

theorem concerns_of_closing {c : Call} {q : Nat} (hc : c.closing q = true) (hq : p ≠ q) :
    c.concerns p = false := by
  cases c with
  | sendmsg conn fd sentBy packet ok => exact concerns_of_inert hc
  | release conn =>
      have hconn : conn = q := by simpa [Call.closing] using hc
      simp [Call.concerns, hconn, Ne.symm hq]
  | _ => first | rfl | cases hc

/-- A frame of another connection. -/
theorem calm_frame {q : Nat} {f : Frame} {calls : List Call} (hq : p ≠ q)
    (hcalm : ∀ c ∈ calls, c.concerns p = false) :
    ∀ c ∈ Call.frame q f :: calls, c.concerns p = false := by
  refine List.forall_mem_cons.mpr ⟨?_, hcalm⟩
  simp [Call.concerns, Ne.symm hq]

/-- A response callback of another connection, if it is called. -/
theorem calm_callback {q : Nat} {calls : List Call} {req : Request} {status : Int}
    {seqNum : BitVec 32} {payload : List Byte} (hq : p ≠ q)
    (hcalls : calls = [] ∨ calls = [.responseCallback q req status seqNum payload]) :
    ∀ c ∈ calls, c.concerns p = false := by
  rcases hcalls with rfl | rfl
  · exact List.forall_mem_nil _
  · refine List.forall_mem_singleton.mpr ?_
    simp [Call.concerns, Ne.symm hq]

/-- **A step, seen from one connection.** -/
theorem Endpoint.Step.turn (hstep : h.Step h') (hl : Lives h) (hk : Keyed p h) :
    ∃ calls, h'.trace = h.trace ++ calls ∧ h.base.next ≤ h'.base.next ∧
      Turn p h.base (h.table p) (h'.table p) calls := by
  have hnone : ∀ c ∈ ([] : List Call), c.concerns p = false := List.forall_mem_nil _
  cases hstep with
  | bump hn => exact ⟨[], (List.append_nil _).symm, hn, .calm hnone⟩
  | added id => exact ⟨[], (List.append_nil _).symm, Nat.le_refl _, .calm hnone⟩
  | @note c hc =>
      exact ⟨[c], rfl, Nat.le_refl _, .calm (List.forall_mem_singleton.mpr (concerns_of_inert hc))⟩
  | @arrive c fd hptr hevent hpending hlast hcid =>
      have haccept : ∀ d ∈ [Call.accept fd], d.concerns p = false :=
        List.forall_mem_singleton.mpr rfl
      refine ⟨[.accept fd], rfl, Nat.le_succ _, ?_⟩
      rw [table_cons]
      by_cases hp : p = c.ptr
      · have hunborn : h.table p = none := by
          apply table_eq_none
          intro d hd
          have hlt := hl.below d hd
          omega
        rw [if_pos hp, hunborn]
        exact .born (hp.trans hptr) hpending hlast haccept
      · rw [if_neg hp]
        exact .calm haccept
  | @refuse fd cid hcid =>
      exact ⟨[.accept fd], rfl, Nat.le_succ _, .calm (List.forall_mem_singleton.mpr rfl)⟩
  | @watch c hc hevent =>
      have hsame : ((h.setConn { c with event := some h.base.next }).setBase
          (eventNew (.client c.ptr) h.base).2).table p = h.table p := by
        have hset : (h.setConn { c with event := some h.base.next }).table p =
            if p = c.ptr then some c.table else h.table p := table_setConn hl hc rfl
        refine Eq.trans hset ?_
        split_ifs with hp
        · rw [hp, table_of_mem hl hc]
        · rfl
      rw [hsame]
      exact ⟨[], (List.append_nil _).symm, Nat.le_succ _, .calm hnone⟩
  | @send c fd sentBy packet hc hsize hplain hroute =>
      refine ⟨[.sendmsg c.ptr fd sentBy packet true], rfl, Nat.le_refl _,
        .calm (List.forall_mem_singleton.mpr ?_)⟩
      cases sentBy with
      | request callback context =>
          have hzero : packet.hdr.seqNum = 0 := hplain (fun heq => by cases heq)
          simp [Call.concerns, Call.isRequestOn, hzero, isNewRequest]
      | response => rfl
      | unsolicited => rfl
  | @register c fd packet callback context timeoutMs hc ht hsize hnum =>
      refine ⟨[.sendmsg c.ptr fd (.request callback context) packet true], rfl,
        Nat.le_add_right _ 2, ?_⟩
      have htable := @table_setConn h c
        { c with table := registerIn c.table h.base callback context timeoutMs } p hl hc rfl
      show Turn p h.base (h.table p) (Endpoint.table (h.setConn
        { c with table := registerIn c.table h.base callback context timeoutMs }) p) _
      rw [htable]
      by_cases hp : p = c.ptr
      · subst hp
        rw [if_pos rfl, table_of_mem hl hc]
        exact .registered hnum
      · rw [if_neg hp]
        refine .calm (List.forall_mem_singleton.mpr ?_)
        simp [Call.concerns, Call.isRequestOn, Ne.symm hp]
  | @close c calls hc hcalls hclose hrelease =>
      refine ⟨calls, rfl, ?_, ?_⟩
      · show h.base.next ≤ (afIpcUtilShutdownRequests c.table (eventFreeIf c.event h.base)).2.next
        rw [shutdownRequests_next, eventFreeIf_next]
      · have htable : (((h.without c.ptr).setBase
            (afIpcUtilShutdownRequests c.table (eventFreeIf c.event h.base)).2).note calls).table p =
            if p = c.ptr then none else h.table p := table_without c.ptr
        rw [htable]
        by_cases hp : p = c.ptr
        · subst hp
          rw [if_pos rfl, table_of_mem hl hc]
          exact .closed hcalls hrelease
        · rw [if_neg hp]
          exact .calm (fun d hd => concerns_of_closing (hcalls d hd) hp)
  | @skip c f hc hskip =>
      refine ⟨[.frame c.ptr f], rfl, Nat.le_refl _, ?_⟩
      show Turn p h.base (h.table p) (h.table p) [.frame c.ptr f]
      by_cases hp : p = c.ptr
      · subst hp
        rw [table_of_mem hl hc]
        exact .passed hskip hnone
      · exact .calm (calm_frame hp hnone)
  | @deliver c f context hc hnew =>
      refine ⟨[.frame c.ptr f, .receiveCallback c.ptr (deliveredSeqNum c.cid (getSeqId f.seqNum))
        f.payload context], rfl, Nat.le_refl _, ?_⟩
      show Turn p h.base (h.table p) (h.table p) _
      have hheard : ∀ d ∈ [Call.receiveCallback c.ptr (deliveredSeqNum c.cid (getSeqId f.seqNum))
          f.payload context], d.concerns p = false := List.forall_mem_singleton.mpr rfl
      by_cases hp : p = c.ptr
      · subst hp
        rw [table_of_mem hl hc]
        exact .passed (.inl hnew) hheard
      · exact .calm (calm_frame hp hheard)
  | @complete c f req rc base calls hc hold htake hcalls hheard =>
      refine ⟨.frame c.ptr f :: calls, rfl, Nat.le_of_eq (takeResponse_sub htake).1.symm, ?_⟩
      have htable : (((h.setConn { c with table := rc }).setBase base).note
          (.frame c.ptr f :: calls)).table p = if p = c.ptr then some rc else h.table p :=
        table_setConn hl hc rfl
      rw [htable]
      by_cases hp : p = c.ptr
      · subst hp
        have hbefore := table_of_mem hl hc
        obtain ⟨hmem, hnum, rfl⟩ := (hk.table _ hbefore).takeResponse htake
        rw [if_pos rfl, hbefore]
        rw [← hnum] at hcalls
        exact .answered hmem hold hnum hcalls hheard
      · rw [if_neg hp]
        exact .calm (calm_frame hp (calm_callback hp hcalls))
  | @timeout c event ptr req rc base calls hc hout hcalls hheard =>
      refine ⟨calls, rfl, Nat.le_of_eq (afIpcOnTimeout_sub hout).1.symm, ?_⟩
      have htable : (((h.setConn { c with table := rc }).setBase base).note calls).table p =
          if p = c.ptr then some rc else h.table p := table_setConn hl hc rfl
      rw [htable]
      by_cases hp : p = c.ptr
      · subst hp
        have hbefore := table_of_mem hl hc
        obtain ⟨hmem, rfl⟩ := (hk.table _ hbefore).onTimeout hout
        rw [if_pos rfl, hbefore]
        exact .timedOut hmem hcalls hheard
      · rw [if_neg hp]
        exact .calm (calm_callback hp hcalls)

theorem requestsOn_frame (q : Nat) (f : Frame) (calls : List Call) :
    requestsOn p (.frame q f :: calls) = requestsOn p calls := by
  simp [requestsOn, Call.isRequestOn]

/-- The callbacks on the connection are those behind the frame. -/
theorem callback_of_mem_frame {q : Nat} {f : Frame} {calls : List Call} {req : Request}
    {status : Int} {seqNum : BitVec 32} {payload : List Byte}
    (h : .responseCallback p req status seqNum payload ∈ Call.frame q f :: calls) :
    .responseCallback p req status seqNum payload ∈ calls := by
  rcases List.mem_cons.mp h with heq | hmem
  · cases heq
  · exact hmem

theorem callback_eq {calls : List Call} {req req' : Request} {status status' : Int}
    {seqNum seqNum' : BitVec 32} {payload payload' : List Byte}
    (hcalls : calls = [] ∨ calls = [.responseCallback p req status seqNum payload])
    (h : .responseCallback p req' status' seqNum' payload' ∈ calls) :
    req' = req ∧ status' = status ∧ seqNum' = seqNum ∧ payload' = payload := by
  rcases hcalls with rfl | rfl
  · exact absurd h List.not_mem_nil
  · cases List.mem_singleton.mp h
    exact ⟨rfl, rfl, rfl, rfl⟩

theorem requestsOn_callback {calls : List Call} {req : Request} {status : Int}
    {seqNum : BitVec 32} {payload : List Byte}
    (hcalls : calls = [] ∨ calls = [.responseCallback p req status seqNum payload]) :
    requestsOn p calls = 0 := by
  rcases hcalls with rfl | rfl <;> rfl

/-- The table without the request whose callback has been called. -/
theorem KeyedTable.settled {trace calls : List Call} {rc : ReqControl} {req : Request}
    (h : KeyedTable p trace rc) (hcount : requestsOn p calls = 0)
    (honly : ∀ req' status seqNum payload,
      .responseCallback p req' status seqNum payload ∈ calls → req' = req) :
    KeyedTable p (trace ++ calls) (rc.without req.ptr) := by
  refine (h.without req.ptr).append hcount (fun r hr => ?_)
  intro req' status seqNum payload hmem
  rw [honly req' status seqNum payload hmem]
  exact (mem_without_table.mp hr).2.symm

/-- **Every step keeps it**, as long as fewer than 2^15 requests are registered. -/
theorem Endpoint.Step.keyed (hstep : h.Step h') (hl : Lives h) (hk : Keyed p h)
    (hbound : requestsOn p h'.trace < 2 ^ 15) : Keyed p h' := by
  obtain ⟨calls, htrace, hnext, hturn⟩ := hstep.turn hl hk
  have hlive : ∀ rc, h.table p = some rc → p < h.base.next ∧
      ∀ r ∈ rc.pendingRequests, r.ptr < h.base.next := by
    intro rc hrc
    obtain ⟨c, hc, rfl, rfl⟩ := table_eq_some hrc
    exact ⟨hl.below c hc, hl.requests c hc⟩
  -- what is left to show of each kind of turn
  have hkeep : (∀ rc, h'.table p = some rc → KeyedTable p (h.trace ++ calls) rc) →
      ((∃ rc, h.table p = some rc) ∨ requestsOn p calls = 0) →
      (∀ req status seqNum payload, .responseCallback p req status seqNum payload ∈ calls →
        req.ptr < h.base.next) → Keyed p h' := by
    intro htable hcount hcalled
    rw [← htrace] at htable
    refine ⟨htable, fun hp => ?_, fun req status seqNum payload hmem => ?_⟩
    · have hold := hk.unborn (Nat.le_trans hnext hp)
      rcases hcount with ⟨rc, hrc⟩ | hzero
      · have hlt := (hlive rc hrc).1
        omega
      · rw [htrace, requestsOn_append, hold, hzero]
    · rw [htrace] at hmem
      apply Nat.lt_of_lt_of_le ?_ hnext
      rcases List.mem_append.mp hmem with hold | hnew
      · exact hk.called req status seqNum payload hold
      · exact hcalled req status seqNum payload hnew
  have hcalmed : ∀ {calls : List Call}, (∀ c ∈ calls, c.concerns p = false) →
      ∀ req status seqNum payload, .responseCallback p req status seqNum payload ∈ calls →
        req.ptr < h.base.next := by
    intro calls hcalm req status seqNum payload hmem
    have hcall := hcalm _ hmem
    simp [Call.concerns] at hcall
  generalize hold : h.table p = t at hturn
  generalize hnew : h'.table p = t' at hturn
  cases hturn with
  | calm hcalm =>
      refine hkeep (fun rc hrc => ?_) (.inr (requestsOn_of_calm hcalm)) (hcalmed hcalm)
      rw [hnew, ← hold] at hrc
      exact (hk.table rc hrc).append (requestsOn_of_calm hcalm) (fun r _ => waits_of_calm hcalm)
  | @passed rc f calls hf hcalm =>
      have hzero := requestsOn_of_calm hcalm
      rw [← requestsOn_frame p f] at hzero
      refine hkeep (fun rc' hrc => ?_) (.inl ⟨rc, hold⟩) (fun req status seqNum payload hmem => ?_)
      · obtain rfl : rc = rc' := Option.some.inj (hnew.symm.trans hrc)
        refine (hk.table rc hold).append hzero (fun r _ => ?_)
        intro req status seqNum payload hmem
        exact waits_of_calm hcalm req status seqNum payload (callback_of_mem_frame hmem)
      · exact hcalmed hcalm req status seqNum payload (callback_of_mem_frame hmem)
  | @born rc calls hp hpending hlast hcalm =>
      have hzero := requestsOn_of_calm hcalm
      refine hkeep (fun rc' hrc => ?_) (.inr hzero) (hcalmed hcalm)
      obtain rfl : rc = rc' := Option.some.inj (hnew.symm.trans hrc)
      apply KeyedTable.of_empty hpending hlast
      rw [requestsOn_append, hk.unborn (Nat.le_of_eq hp.symm), hzero]
  | @registered rc fd callback context timeoutMs packet hnum =>
      rw [htrace] at hbound
      refine hkeep (fun rc' hrc => ?_) (.inl ⟨rc, hold⟩) (fun req status seqNum payload hmem => ?_)
      · obtain rfl := Option.some.inj (hnew.symm.trans hrc)
        exact (hk.table rc hold).register (hlive rc hold).2 hk.called hnum hbound
      · cases List.mem_singleton.mp hmem
  | @answered rc f req calls hmem hfold hseq hcalls hheard =>
      have hzero := requestsOn_callback hcalls
      rw [← requestsOn_frame p f] at hzero
      refine hkeep (fun rc' hrc => ?_) (.inl ⟨rc, hold⟩) (fun req' status seqNum payload hcall => ?_)
      · obtain rfl := Option.some.inj (hnew.symm.trans hrc)
        refine (hk.table rc hold).settled hzero (fun req' status seqNum payload hcall => ?_)
        exact (callback_eq hcalls (callback_of_mem_frame hcall)).1
      · rw [(callback_eq hcalls (callback_of_mem_frame hcall)).1]
        exact (hlive rc hold).2 req hmem
  | @timedOut rc req calls hmem hcalls hheard =>
      refine hkeep (fun rc' hrc => ?_) (.inl ⟨rc, hold⟩) (fun req' status seqNum payload hcall => ?_)
      · obtain rfl := Option.some.inj (hnew.symm.trans hrc)
        refine (hk.table rc hold).settled (requestsOn_callback hcalls) ?_
        intro req' status seqNum payload hcall
        exact (callback_eq hcalls hcall).1
      · rw [(callback_eq hcalls hcall).1]
        exact (hlive rc hold).2 req hmem
  | @closed rc calls hcalls hrelease =>
      refine hkeep (fun rc' hrc => ?_) (.inl ⟨rc, hold⟩) (fun req status seqNum payload hmem => ?_)
      · rw [hnew] at hrc
        cases hrc
      · cases hcalls _ hmem

/-- **Every run keeps it.** -/
theorem Endpoint.Steps.keyed (hsteps : h.Steps h') (hl : Lives h) (hk : Keyed p h)
    (hbound : requestsOn p h'.trace < 2 ^ 15) : Keyed p h' := by
  induction hsteps with
  | refl => exact hk
  | tail hsteps hstep ih =>
      obtain ⟨calls, htrace⟩ := hstep.trace
      have hpast := hbound
      rw [htrace, requestsOn_append] at hpast
      exact hstep.keyed (Endpoint.Steps.lives hsteps hl) (ih (by omega)) hbound

/-- It holds when an endpoint has been opened. -/
theorem Started.keyed (hs : Started h) (p : Nat) : Keyed p h where
  table := by
    intro rc hrc
    obtain ⟨c, hc, -, rfl⟩ := table_eq_some hrc
    obtain ⟨-, -, hpending, hlast⟩ := hs.conns c hc
    apply KeyedTable.of_empty hpending hlast
    rw [hs.trace]
    rfl
  unborn := by
    intro _
    rw [hs.trace]
    rfl
  called := fun req status seqNum payload hmem => absurd hmem (hs.not_observed _)

end Step

-- ============================================================================
-- What becomes of a request
-- ============================================================================

/-- The call decides what becomes of the request: it is a frame that responds to its
    number, or its callback, or the end of its connection. -/
def Call.settles (p : Nat) (r : Request) : Call → Prop
  | .frame q f => q = p ∧ ¬ f.IsNew ∧ getSeqId f.seqNum = r.seqNum
  | .responseCallback q req _ _ _ => q = p ∧ req.ptr = r.ptr
  | .release q => q = p
  | _ => False

/-- The call is the callback of the request. -/
def Call.respondsTo (p : Nat) (r : Request) : Call → Bool
  | .responseCallback q req _ _ _ => decide (q = p) && decide (req.ptr = r.ptr)
  | _ => false

/-- The request has left the table. -/
def Gone (r : Request) (t : Option ReqControl) : Prop :=
  ∀ rc, t = some rc → ∀ r' ∈ rc.pendingRequests, r'.ptr ≠ r.ptr

/-- What has become of a request that was pending on the connection `p`, from the
    table `t` and the calls made since: it waits, or the first call that settles it
    has been made.  A frame is followed by its callback at once, and there is no
    other. -/
inductive Fate (p : Nat) (r : Request) (t : Option ReqControl) (since : List Call) : Prop
  | waits {rc : ReqControl} (ht : t = some rc) (hr : r ∈ rc.pendingRequests)
      (hnone : ∀ c ∈ since, ¬ c.settles p r)
  | settled {before after : List Call} {c : Call} (hsince : since = before ++ c :: after)
      (hbefore : ∀ d ∈ before, ¬ d.settles p r) (hc : c.settles p r) (hgone : Gone r t)
      (hanswer : ∀ f, c = .frame p f →
        ∃ more, after = .responseCallback p r statusOk r.seqNum f.payload :: more ∧
          ∀ d ∈ more, d.respondsTo p r = false)

section Fate

variable {p : Nat} {r : Request} {base : EventBase} {t t' : Option ReqControl}
  {calls since : List Call}

theorem not_settles_of_calm {c : Call} (hc : c.concerns p = false) : ¬ c.settles p r := by
  cases c with
  | frame q f =>
      rintro ⟨rfl, -⟩
      simp [Call.concerns] at hc
  | responseCallback q req status seqNum payload =>
      rintro ⟨rfl, -⟩
      simp [Call.concerns] at hc
  | release q =>
      rintro rfl
      simp [Call.concerns] at hc
  | _ => exact False.elim

theorem settles_of_respondsTo {c : Call} (hc : c.respondsTo p r = true) : c.settles p r := by
  cases c with
  | responseCallback q req status seqNum payload =>
      have hboth : q = p ∧ req.ptr = r.ptr := by simpa [Call.respondsTo] using hc
      exact hboth
  | _ => cases hc

theorem not_respondsTo_of_not_settles {c : Call} (hc : ¬ c.settles p r) :
    c.respondsTo p r = false := by
  rw [← Bool.not_eq_true]
  exact fun h => hc (settles_of_respondsTo h)

theorem not_respondsTo_of_calm {c : Call} (hc : c.concerns p = false) :
    c.respondsTo p r = false :=
  not_respondsTo_of_not_settles (not_settles_of_calm hc)

/-- The callback of another request. -/
theorem not_settles_callback {req : Request} {status : Int} {seqNum : BitVec 32}
    {payload : List Byte} (hne : req.ptr ≠ r.ptr)
    (hcalls : calls = [] ∨ calls = [.responseCallback p req status seqNum payload]) :
    ∀ c ∈ calls, ¬ c.settles p r := by
  intro c hc
  rcases hcalls with rfl | rfl
  · exact absurd hc List.not_mem_nil
  · rw [List.mem_singleton.mp hc]
    exact fun h => hne h.2

/-- A request that has left the table does not come back, and is not heard of. -/
theorem Turn.gone (hturn : Turn p base t t' calls) (hp : p < base.next) (hr : r.ptr < base.next)
    (hgone : Gone r t) : Gone r t' ∧ ∀ c ∈ calls, c.respondsTo p r = false := by
  cases hturn with
  | calm hcalm => exact ⟨hgone, fun c hc => not_respondsTo_of_calm (hcalm c hc)⟩
  | passed hf hcalm =>
      refine ⟨hgone, fun c hc => ?_⟩
      rcases List.mem_cons.mp hc with rfl | hc
      · rfl
      · exact not_respondsTo_of_calm (hcalm c hc)
  | born hborn => exact absurd hborn (Nat.ne_of_lt hp)
  | @registered rc fd callback context timeoutMs packet hnum =>
      refine ⟨fun rc' hrc r' hr' => ?_, fun c hc => ?_⟩
      · obtain rfl := Option.some.inj hrc
        rcases List.mem_cons.mp hr' with rfl | hr'
        · exact (Nat.ne_of_lt hr).symm
        · exact hgone rc rfl r' hr'
      · rw [List.mem_singleton.mp hc]
        rfl
  | @answered rc f req calls hmem hold hnum hcalls hheard =>
      refine ⟨fun rc' hrc r' hr' => ?_, fun c hc => ?_⟩
      · obtain rfl := Option.some.inj hrc
        exact hgone rc rfl r' (mem_without_table.mp hr').1
      · rcases List.mem_cons.mp hc with rfl | hc
        · rfl
        · exact not_respondsTo_of_not_settles
            (not_settles_callback (hgone rc rfl req hmem) hcalls c hc)
  | @timedOut rc req calls hmem hcalls hheard =>
      refine ⟨fun rc' hrc r' hr' => ?_, fun c hc => ?_⟩
      · obtain rfl := Option.some.inj hrc
        exact hgone rc rfl r' (mem_without_table.mp hr').1
      · exact not_respondsTo_of_not_settles
          (not_settles_callback (hgone rc rfl req hmem) hcalls c hc)
  | closed hcalls hrelease =>
      refine ⟨fun rc' hrc => (by cases hrc), fun c hc => ?_⟩
      have hclosing := hcalls c hc
      cases c with
      | responseCallback => cases hclosing
      | _ => rfl

/-- Calls of which none settles the request. -/
theorem not_settles_append (h : ∀ c ∈ since, ¬ c.settles p r) (h' : ∀ c ∈ calls, ¬ c.settles p r) :
    ∀ c ∈ since ++ calls, ¬ c.settles p r := by
  intro c hc
  rcases List.mem_append.mp hc with hold | hnew
  · exact h c hold
  · exact h' c hnew

/-- Among the calls of closing a connection the release is the first that settles
    its requests. -/
theorem split_at_release (hcalls : ∀ c ∈ calls, c.closing p = true)
    (hrelease : releasesOf p calls = 1) :
    ∃ before c after, calls = before ++ c :: after ∧ (∀ d ∈ before, ¬ d.settles p r) ∧
      c.settles p r := by
  have hone : calls.countP (Call.isRelease p) = 1 := hrelease
  obtain ⟨c, hc, hrel⟩ := List.countP_pos_iff.mp (show 0 < calls.countP (Call.isRelease p) by omega)
  obtain ⟨before, after, rfl⟩ := List.append_of_mem hc
  rw [List.countP_append, List.countP_cons_of_pos hrel] at hone
  have hbefore : before.countP (Call.isRelease p) = 0 := by omega
  have hsettles : ∀ d : Call, d.closing p = true → (d.settles p r ↔ d.isRelease p = true) := by
    intro d hd
    cases d with
    | release q => exact (decide_eq_true_iff (p := q = p)).symm
    | frame => cases hd
    | responseCallback => cases hd
    | _ => exact ⟨False.elim, fun h => by cases h⟩
  refine ⟨before, c, after, rfl, fun d hd => ?_, (hsettles c (hcalls c hc)).mpr hrel⟩
  rw [hsettles d (hcalls d (List.mem_append_left _ hd))]
  exact List.countP_eq_zero.mp hbefore d hd

/-- **What a step does** to a request with a callback. -/
theorem Fate.step (h : Fate p r t since) (hturn : Turn p base t t' calls) {trace : List Call}
    (hk : ∀ rc, t = some rc → KeyedTable p trace rc) (hp : p < base.next)
    (hr : r.ptr < base.next) (hcallback : r.responseCallback ≠ none) :
    Fate p r t' (since ++ calls) := by
  cases h with
  | @settled before after c hsince hbefore hc hgone hanswer =>
      obtain ⟨hgone', hquiet⟩ := hturn.gone hp hr hgone
      have hsplit : since ++ calls = before ++ c :: (after ++ calls) := by
        rw [hsince, List.append_assoc, List.cons_append]
      refine .settled hsplit hbefore hc hgone' (fun f hf => ?_)
      obtain ⟨more, hafter, hmore⟩ := hanswer f hf
      refine ⟨more ++ calls, by rw [hafter, List.cons_append], fun d hd => ?_⟩
      rcases List.mem_append.mp hd with hd | hd
      · exact hmore d hd
      · exact hquiet d hd
  | @waits rc ht hmem hnone =>
      subst ht
      have hkey := hk rc rfl
      -- the first call that settles it is the first of these
      have hfirst : ∀ {c : Call} {after : List Call}, calls = c :: after → c.settles p r →
          Gone r t' → (∀ f, c = .frame p f →
            after = [.responseCallback p r statusOk r.seqNum f.payload]) →
          Fate p r t' (since ++ calls) := by
        intro c after hcalls hc hgone hanswer
        have hsplit : since ++ calls = since ++ c :: after := by rw [hcalls]
        refine .settled hsplit hnone hc hgone (fun f hf => ?_)
        exact ⟨[], hanswer f hf, fun d hd => absurd hd List.not_mem_nil⟩
      have hgone : ∀ {rc' : ReqControl}, rc' = rc.without r.ptr → Gone r (some rc') := by
        intro rc' hrc' rc'' hsome r' hr'
        obtain rfl := Option.some.inj hsome
        rw [hrc'] at hr'
        exact (mem_without_table.mp hr').2
      cases hturn with
      | calm hcalm =>
          exact .waits rfl hmem
            (not_settles_append hnone (fun c hc => not_settles_of_calm (hcalm c hc)))
      | @passed _ f calls hf hcalm =>
          refine .waits rfl hmem (not_settles_append hnone (fun c hc => ?_))
          rcases List.mem_cons.mp hc with rfl | hc
          · rintro ⟨-, hold, hnum⟩
            rcases hf with hnew | hother
            · exact hold hnew
            · exact hother r hmem hnum.symm
          · exact not_settles_of_calm (hcalm c hc)
      | @registered _ fd callback context timeoutMs packet hnum =>
          refine .waits rfl (List.mem_cons_of_mem _ hmem) (not_settles_append hnone (fun c hc => ?_))
          rw [List.mem_singleton.mp hc]
          exact False.elim
      | @answered _ f req calls hreq hold hnum hcalls hheard =>
          by_cases hsame : req.ptr = r.ptr
          · obtain rfl := List.inj_on_of_nodup_map hkey.ptrs hreq hmem hsame
            have hcall := hcalls.resolve_left (fun hnil => hcallback (hheard hnil))
            refine hfirst rfl ⟨rfl, hold, hnum.symm⟩ (hgone rfl) (fun f' hf' => ?_)
            cases hf'
            exact hcall
          · refine .waits rfl (mem_without_table.mpr ⟨hmem, Ne.symm hsame⟩)
              (not_settles_append hnone (fun c hc => ?_))
            rcases List.mem_cons.mp hc with rfl | hc
            · rintro ⟨-, -, hseq⟩
              have heq : req.seqNum = r.seqNum := hnum.trans hseq
              exact hsame (congrArg Request.ptr (List.inj_on_of_nodup_map hkey.seqNums hreq hmem heq))
            · exact not_settles_callback hsame hcalls c hc
      | @timedOut _ req calls hreq hcalls hheard =>
          by_cases hsame : req.ptr = r.ptr
          · obtain rfl := List.inj_on_of_nodup_map hkey.ptrs hreq hmem hsame
            have hcall := hcalls.resolve_left (fun hnil => hcallback (hheard hnil))
            refine hfirst hcall ⟨rfl, rfl⟩ (hgone rfl) (fun f' hf' => ?_)
            cases hf'
          · exact .waits rfl (mem_without_table.mpr ⟨hmem, Ne.symm hsame⟩)
              (not_settles_append hnone (not_settles_callback hsame hcalls))
      | @closed _ calls hcalls hrelease =>
          obtain ⟨b, c, a, rfl, hbefore, hc⟩ := split_at_release hcalls hrelease
          refine .settled (List.append_assoc since b (c :: a)).symm
            (not_settles_append hnone hbefore) hc (fun rc' hrc => (by cases hrc)) (fun f hf => ?_)
          have hclosing := hcalls c (List.mem_append_right b List.mem_cons_self)
          rw [hf] at hclosing
          cases hclosing

/-- **What a run does** to a request with a callback. -/
theorem Endpoint.Steps.fate {h h' : Endpoint} (hsteps : h.Steps h') (hl : Lives h)
    (hk : Keyed p h) {rc : ReqControl} (hrc : h.table p = some rc) (hmem : r ∈ rc.pendingRequests)
    (hcallback : r.responseCallback ≠ none) (hbound : requestsOn p h'.trace < 2 ^ 15) :
    ∃ since, h'.trace = h.trace ++ since ∧ Fate p r (h'.table p) since := by
  obtain ⟨c, hc, rfl, rfl⟩ := table_eq_some hrc
  have hp : c.ptr < h.base.next := hl.below c hc
  have hr : r.ptr < h.base.next := hl.requests c hc r hmem
  have hrun : h.base.next ≤ h'.base.next ∧
      ∃ since, h'.trace = h.trace ++ since ∧ Fate c.ptr r (h'.table c.ptr) since := by
    induction hsteps with
    | refl =>
        refine ⟨Nat.le_refl _, [], (List.append_nil _).symm, .waits hrc hmem (fun d hd => ?_)⟩
        exact absurd hd List.not_mem_nil
    | @tail h₁ h₂ hsteps hstep ih =>
        obtain ⟨more, hmore⟩ := hstep.trace
        have hpast := hbound
        rw [hmore, requestsOn_append] at hpast
        obtain ⟨hle, since, hsince, hfate⟩ := ih (by omega)
        have hlives := Endpoint.Steps.lives hsteps hl
        have hkeyed := Endpoint.Steps.keyed hsteps hl hk (by omega)
        obtain ⟨calls, htrace, hnext, hturn⟩ := hstep.turn hlives hkeyed
        refine ⟨Nat.le_trans hle hnext, since ++ calls, ?_, ?_⟩
        · rw [htrace, hsince, List.append_assoc]
        · exact hfate.step hturn hkeyed.table (Nat.lt_of_lt_of_le hp hle)
            (Nat.lt_of_lt_of_le hr hle) hcallback
  exact hrun.2

/-- **A pending request that is answered** has its callback called with the answer,
    once and no more: the frame is the first call since that settles it. -/
theorem Endpoint.Steps.answered {h h' : Endpoint} (hsteps : h.Steps h') (hl : Lives h)
    (hk : Keyed p h) {rc : ReqControl} (hrc : h.table p = some rc) (hmem : r ∈ rc.pendingRequests)
    (hcallback : r.responseCallback ≠ none) (hbound : requestsOn p h'.trace < 2 ^ 15)
    {before after : List Call} {f : Frame}
    (htrace : h'.trace = h.trace ++ (before ++ .frame p f :: after))
    (hbefore : ∀ d ∈ before, ¬ d.settles p r) (hold : ¬ f.IsNew)
    (hnum : getSeqId f.seqNum = r.seqNum) :
    h'.trace.filter (Call.respondsTo p r) =
      [.responseCallback p r statusOk r.seqNum f.payload] := by
  obtain ⟨since, hsince, hfate⟩ := hsteps.fate hl hk hrc hmem hcallback hbound
  obtain rfl : since = before ++ .frame p f :: after :=
    List.append_cancel_left (hsince.symm.trans htrace)
  have hsettles : Call.settles p r (.frame p f) := ⟨rfl, hold, hnum⟩
  have hfilter : ∀ {calls : List Call}, (∀ d ∈ calls, d.respondsTo p r = false) →
      calls.filter (Call.respondsTo p r) = [] := by
    intro calls hnone
    rw [List.filter_eq_nil_iff]
    intro d hd
    rw [hnone d hd]
    exact Bool.false_ne_true
  have hpast : ∀ d ∈ h.trace, d.respondsTo p r = false := by
    intro d hd
    rw [← Bool.not_eq_true]
    intro hresponds
    cases d with
    | responseCallback q req status seqNum payload =>
        have hboth : q = p ∧ req.ptr = r.ptr := by simpa [Call.respondsTo] using hresponds
        obtain ⟨rfl, hptr⟩ := hboth
        exact (hk.table rc hrc).waits r hmem req status seqNum payload hd hptr
    | _ => cases hresponds
  have hquiet : ∀ d ∈ before, d.respondsTo p r = false :=
    fun d hd => not_respondsTo_of_not_settles (hbefore d hd)
  cases hfate with
  | waits _ _ hnone =>
      exact absurd hsettles (hnone _ (List.mem_append_right before List.mem_cons_self))
  | settled hsplit hbefore' hc' _ hanswer =>
      obtain ⟨rfl, rfl⟩ := split_first_unique hsplit hbefore hbefore' hsettles hc'
      obtain ⟨more, rfl, hmore⟩ := hanswer f rfl
      rw [htrace, List.filter_append, List.filter_append, hfilter hpast, hfilter hquiet,
        List.filter_cons_of_neg (by simp [Call.respondsTo]),
        List.filter_cons_of_pos (by simp [Call.respondsTo]), hfilter hmore]
      rfl

end Fate

end AfIpc.Ipc
