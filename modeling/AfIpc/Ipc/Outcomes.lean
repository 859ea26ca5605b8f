/-
  AfIpc.Ipc.Outcomes

  Two things that every run of an endpoint keeps, whatever its applications and its
  peers do and however long it is.

  No request is lost or answered for another: the requests that have been registered
  on a live connection are those that wait and those that have had their callback.
  This does not need the sequence numbers to be unique.  A response or a timeout may
  then take out the wrong record, but it takes out one and calls one.

  And the end of a connection is the end: nothing is sent or taken on it and no
  callback is called for it once its record has been given back.
-/

import AfIpc.Ipc.Correlation

namespace AfIpc.Ipc

open AfIpc.Lib

-- ============================================================================
-- The books of a connection
-- ============================================================================

/-- The callback of a request on the connection is called. -/
def Call.isCallbackOn (conn : Nat) : Call → Bool
  | .responseCallback p _ _ _ _ => p = conn
  | _ => false

/-- How many requests on a connection have had their callback. -/
def callbacksOn (conn : Nat) (trace : List Call) : Nat := trace.countP (Call.isCallbackOn conn)

theorem callbacksOn_append (conn : Nat) (t u : List Call) :
    callbacksOn conn (t ++ u) = callbacksOn conn t + callbacksOn conn u := List.countP_append

/-- The application asks to be called back for each request that it registers. -/
def Attentive (trace : List Call) : Prop :=
  ∀ conn fd callback context packet,
    .sendmsg conn fd (.request callback context) packet true ∈ trace →
    isNewRequest packet.hdr.seqNum = true → callback ≠ none

theorem Attentive.past {t u : List Call} (h : Attentive (t ++ u)) : Attentive t :=
  fun conn fd callback context packet hmem =>
    h conn fd callback context packet (List.mem_append_left u hmem)

/-- The calls neither register nor complete a request. -/
def Uncounted (calls : List Call) : Prop :=
  ∀ conn, requestsOn conn calls = 0 ∧ callbacksOn conn calls = 0

/-- What has been registered waits or has been called back. -/
structure Conserves (h : Endpoint) : Prop where
  heard : ∀ c ∈ h.conns, ∀ r ∈ c.table.pendingRequests, r.responseCallback ≠ none
  live : ∀ c ∈ h.conns, requestsOn c.ptr h.trace =
    c.table.pendingRequests.length + callbacksOn c.ptr h.trace
  gone : ∀ p, callbacksOn p h.trace ≤ requestsOn p h.trace
  unborn : ∀ p, h.base.next ≤ p → requestsOn p h.trace = 0

section Uncounted

theorem uncounted_of_inert {call : Call} (hc : call.inert = true) : Uncounted [call] := by
  intro conn
  cases call with
  | sendmsg p fd sentBy packet ok =>
      cases ok with
      | true => cases hc
      | false => cases sentBy <;> exact ⟨rfl, rfl⟩
  | _ => first | exact ⟨rfl, rfl⟩ | cases hc

theorem uncounted_of_closing {calls : List Call} {conn : Nat}
    (h : ∀ call ∈ calls, call.closing conn = true) : Uncounted calls := by
  intro p
  refine ⟨requestsOn_neutral (fun c hc => Call.neutral_of_closing (h c hc)) p, ?_⟩
  rw [callbacksOn, List.countP_eq_zero]
  intro c hc
  have hclosing := h c hc
  cases c <;> first | exact Bool.false_ne_true | cases hclosing

/-- A message without an entry in the table is not counted. -/
theorem uncounted_of_send {conn : Nat} {fd : Int} {sentBy : SentBy} {packet : Packet}
    (hplain : sentBy ≠ .response → packet.hdr.seqNum = 0) :
    Uncounted [.sendmsg conn fd sentBy packet true] := by
  intro p
  refine ⟨?_, rfl⟩
  rw [requestsOn, List.countP_eq_zero]
  intro c hc
  obtain rfl := List.mem_singleton.mp hc
  cases sentBy with
  | request callback context =>
      have hzero : isNewRequest packet.hdr.seqNum = false := by
        rw [hplain (fun heq => by cases heq)]
        decide
      simp [Call.isRequestOn, hzero]
  | _ => exact Bool.false_ne_true

end Uncounted

section Conserves

variable {h h' : Endpoint} {c : Conn} {calls : List Call}

/-- Calls that are not counted, where every table holds the requests it held. -/
theorem Conserves.quiet (hC : Conserves h) (htrace : h'.trace = h.trace ++ calls)
    (hcalls : Uncounted calls) (hnext : h.base.next ≤ h'.base.next)
    (hconns : ∀ d ∈ h'.conns, ∃ c ∈ h.conns, c.ptr = d.ptr ∧
      c.table.pendingRequests = d.table.pendingRequests) : Conserves h' where
  heard := by
    intro d hd
    obtain ⟨c, hc, -, hpending⟩ := hconns d hd
    rw [← hpending]
    exact hC.heard c hc
  live := by
    intro d hd
    obtain ⟨c, hc, hptr, hpending⟩ := hconns d hd
    have hcount := hC.live c hc
    have hnone := hcalls c.ptr
    rw [← hptr, ← hpending, htrace, requestsOn_append, callbacksOn_append]
    omega
  gone := by
    intro p
    have hle := hC.gone p
    have hnone := hcalls p
    rw [htrace, requestsOn_append, callbacksOn_append]
    omega
  unborn := by
    intro p hp
    have hzero := hC.unborn p (Nat.le_trans hnext hp)
    have hnone := hcalls p
    rw [htrace, requestsOn_append]
    omega

/-- The records are the same but for one, which keeps its requests. -/
theorem same_requests (hc : c ∈ h.conns) {d : Conn} (hptr : d.ptr = c.ptr)
    (hpending : d.table.pendingRequests = c.table.pendingRequests) :
    ∀ e ∈ (h.setConn d).conns, ∃ c ∈ h.conns, c.ptr = e.ptr ∧
      c.table.pendingRequests = e.table.pendingRequests := by
  intro e he
  rcases mem_setConn he with rfl | ⟨he, -⟩
  · exact ⟨c, hc, hptr.symm, hpending.symm⟩
  · exact ⟨e, he, rfl, rfl⟩

/-- A request is registered, and will be called back. -/
theorem Conserves.register (hC : Conserves h) (hl : Lives h) (hc : c ∈ h.conns) {fd : Int}
    {packet : Packet} {callback : Option Callback} {context : Context} {timeoutMs : Int}
    (hnum : packet.hdr.seqNum = newSeqNum c.table ||| newRequestMask) (hcb : callback ≠ none) :
    Conserves ((((h.setConn
        { c with table := registerIn c.table h.base callback context timeoutMs }).setBase
      (armTimer h.base))).note [.sendmsg c.ptr fd (.request callback context) packet true]) := by
  have hnew : isNewRequest packet.hdr.seqNum = true := by
    rw [hnum]
    exact isNewRequest_or_mask _
  have hone : ∀ p, requestsOn p [.sendmsg c.ptr fd (.request callback context) packet true] =
      if c.ptr = p then 1 else 0 := by
    intro p
    by_cases hp : c.ptr = p
    · simp [requestsOn, Call.isRequestOn, hnew, hp]
    · simp [requestsOn, Call.isRequestOn, hp]
  have hnone : ∀ p, callbacksOn p [.sendmsg c.ptr fd (.request callback context) packet true] = 0 :=
    fun p => rfl
  have hreq : ∀ p, requestsOn p (h.trace ++
      [.sendmsg c.ptr fd (.request callback context) packet true]) =
      requestsOn p h.trace + if c.ptr = p then 1 else 0 := by
    intro p
    rw [requestsOn_append, hone]
  have hcall : ∀ p, callbacksOn p (h.trace ++
      [.sendmsg c.ptr fd (.request callback context) packet true]) = callbacksOn p h.trace := by
    intro p
    rw [callbacksOn_append, hnone, Nat.add_zero]
  refine ⟨?_, ?_, ?_, ?_⟩
  · intro d hd r hr
    rcases mem_setConn hd with rfl | ⟨hd, -⟩
    · rcases List.mem_cons.mp hr with rfl | hr
      · exact hcb
      · exact hC.heard c hc r hr
    · exact hC.heard d hd r hr
  · intro d hd
    show requestsOn d.ptr (h.trace ++ _) = _ + callbacksOn d.ptr (h.trace ++ _)
    rw [hreq, hcall]
    rcases mem_setConn hd with rfl | ⟨hd, hne⟩
    · have hcount := hC.live c hc
      have hlen : (registerIn c.table h.base callback context timeoutMs).pendingRequests.length =
          c.table.pendingRequests.length + 1 := rfl
      dsimp only
      rw [if_pos rfl, hlen]
      omega
    · rw [if_neg (Ne.symm hne)]
      exact hC.live d hd
  · intro p
    show callbacksOn p (h.trace ++ _) ≤ requestsOn p (h.trace ++ _)
    rw [hreq, hcall]
    exact Nat.le_add_right_of_le (hC.gone p)
  · intro p hp
    have hp' : h.base.next + 2 ≤ p := hp
    have hlt := hl.below c hc
    show requestsOn p (h.trace ++ _) = 0
    rw [hreq, if_neg (by omega)]
    exact hC.unborn p (by omega)

/-- A request leaves its table and has its callback. -/
theorem Conserves.settle (hC : Conserves h) (hc : c ∈ h.conns) {rc : ReqControl}
    {base : EventBase} {calls : List Call}
    (hheard : ∀ r ∈ rc.pendingRequests, r.responseCallback ≠ none)
    (hlen : rc.pendingRequests.length + 1 = c.table.pendingRequests.length)
    (hnext : base.next = h.base.next) (hreq : ∀ p, requestsOn p calls = 0)
    (hcall : ∀ p, callbacksOn p calls = if c.ptr = p then 1 else 0) :
    Conserves (((h.setConn { c with table := rc }).setBase base).note calls) where
  heard := by
    intro d hd
    rcases mem_setConn hd with rfl | ⟨hd, -⟩
    · exact hheard
    · exact hC.heard d hd
  live := by
    intro d hd
    show requestsOn d.ptr (h.trace ++ calls) = _ + callbacksOn d.ptr (h.trace ++ calls)
    rw [requestsOn_append, callbacksOn_append, hreq, hcall]
    rcases mem_setConn hd with rfl | ⟨hd, hne⟩
    · have hcount := hC.live c hc
      dsimp only
      rw [if_pos rfl]
      omega
    · rw [if_neg (Ne.symm hne)]
      exact hC.live d hd
  gone := by
    intro p
    show callbacksOn p (h.trace ++ calls) ≤ requestsOn p (h.trace ++ calls)
    rw [requestsOn_append, callbacksOn_append, hreq, hcall]
    by_cases hp : c.ptr = p
    · have hcount := hC.live c hc
      rw [if_pos hp, ← hp]
      omega
    · rw [if_neg hp]
      exact hC.gone p
  unborn := by
    intro p hp
    show requestsOn p (h.trace ++ calls) = 0
    rw [requestsOn_append, hreq]
    refine hC.unborn p ?_
    rw [← hnext]
    exact hp

end Conserves

/-- A response takes one request out. -/
theorem takeResponse_length {seqNum : BitVec 32} {rc rc' : ReqControl} {base base' : EventBase}
    {req : Request} (h : takeResponse seqNum rc base = (some req, rc', base')) :
    rc'.pendingRequests.length + 1 = rc.pendingRequests.length := by
  obtain ⟨hfind, rfl, -⟩ := takeResponse_found h
  have hmem := List.mem_of_find?_eq_some hfind
  have hlen := List.length_eraseP_of_mem (p := fun r : Request => decide (r.seqNum = seqNum)) hmem
    (by simpa using List.find?_some hfind)
  have hpos := List.length_pos_of_mem hmem
  show (rc.pendingRequests.eraseP _).length + 1 = _
  omega

/-- And so does a timeout, even if it is not the request that has timed out. -/
theorem afIpcOnTimeout_length {ptr : Nat} {rc rc' : ReqControl} {base base' : EventBase}
    {req : Request} (h : afIpcOnTimeout ptr rc base = .ok (req, rc', base')) :
    rc'.pendingRequests.length + 1 = rc.pendingRequests.length ∧
      ∀ r ∈ rc'.pendingRequests, ∃ r' ∈ rc.pendingRequests,
        r'.responseCallback = r.responseCallback := by
  obtain ⟨hfind, rfl, -⟩ := afIpcOnTimeout_found h
  have hmem := List.mem_of_find?_eq_some hfind
  refine ⟨?_, ?_⟩
  · have hset : (if req.ptr = ptr then { req with event := none } else req) ∈
        (rc.setEvent ptr none).pendingRequests := List.mem_map_of_mem hmem
    have hlen := List.length_eraseP_of_mem (p := fun r : Request => decide (r.seqNum = req.seqNum))
      hset (by split_ifs <;> simp)
    have hmap : (rc.setEvent ptr none).pendingRequests.length = rc.pendingRequests.length :=
      List.length_map _
    have hpos := List.length_pos_of_mem hset
    show ((rc.setEvent ptr none).pendingRequests.eraseP _).length + 1 = _
    omega
  · intro r hr
    obtain ⟨r', hr', rfl⟩ := List.mem_map.mp (List.mem_of_mem_eraseP hr)
    refine ⟨r', hr', ?_⟩
    split_ifs <;> rfl

/-- **Every step keeps the books.** -/
theorem Endpoint.Step.conserves {h h' : Endpoint} (hstep : h.Step h') (hl : Lives h)
    (hC : Conserves h) (happ : Attentive h'.trace) : Conserves h' := by
  have hsame : ∀ d ∈ h.conns, ∃ c ∈ h.conns, c.ptr = d.ptr ∧
      c.table.pendingRequests = d.table.pendingRequests := fun d hd => ⟨d, hd, rfl, rfl⟩
  have hnil : Uncounted [] := fun _ => ⟨rfl, rfl⟩
  cases hstep with
  | bump hn => exact hC.quiet (List.append_nil _).symm hnil hn hsame
  | added id => exact hC.quiet (List.append_nil _).symm hnil (Nat.le_refl _) hsame
  | note hc => exact hC.quiet rfl (uncounted_of_inert hc) (Nat.le_refl _) hsame
  | @arrive c fd hptr hevent hpending hlast hcid =>
      have hold : Conserves ((h.note [.accept fd]).setBase
          { h.base with next := h.base.next + 1 }) :=
        hC.quiet rfl (uncounted_of_inert rfl) (Nat.le_succ _) hsame
      have hzero : requestsOn c.ptr (h.trace ++ [.accept fd]) = 0 := by
        have hunborn := hC.unborn c.ptr (Nat.le_of_eq hptr.symm)
        rw [requestsOn_append, hunborn]
        rfl
      refine ⟨?_, ?_, hold.gone, hold.unborn⟩
      · intro d hd r hr
        rcases List.mem_cons.mp hd with rfl | hd
        · rw [hpending] at hr
          cases hr
        · exact hC.heard d hd r hr
      · intro d hd
        rcases List.mem_cons.mp hd with rfl | hd
        · have hle : callbacksOn d.ptr (h.trace ++ [.accept fd]) ≤
              requestsOn d.ptr (h.trace ++ [.accept fd]) := hold.gone d.ptr
          show requestsOn d.ptr (h.trace ++ [.accept fd]) = _ +
            callbacksOn d.ptr (h.trace ++ [.accept fd])
          rw [hpending, List.length_nil]
          omega
        · exact hold.live d hd
  | refuse hcid => exact hC.quiet rfl (uncounted_of_inert rfl) (Nat.le_succ _) hsame
  | watch hc hevent =>
      exact hC.quiet (List.append_nil _).symm hnil (Nat.le_succ _) (same_requests hc rfl rfl)
  | send hc hsize hplain hroute =>
      exact hC.quiet rfl (uncounted_of_send hplain) (Nat.le_refl _) hsame
  | @register c fd packet callback context timeoutMs hc ht hsize hnum =>
      refine hC.register hl hc hnum (happ c.ptr fd callback context packet ?_ ?_)
      · exact List.mem_append_right _ (List.mem_singleton_self _)
      · rw [hnum]
        exact isNewRequest_or_mask _
  | @close c calls hc hcalls hclose hrelease =>
      have hnext : (afIpcUtilShutdownRequests c.table (eventFreeIf c.event h.base)).2.next =
          h.base.next := by
        rw [shutdownRequests_next, eventFreeIf_next]
      exact hC.quiet rfl (uncounted_of_closing hcalls) (Nat.le_of_eq hnext.symm)
        (fun d hd => ⟨d, (mem_without.mp hd).1, rfl, rfl⟩)
  | skip hc hskip => exact hC.quiet rfl (fun _ => ⟨rfl, rfl⟩) (Nat.le_refl _) hsame
  | deliver hc hnew => exact hC.quiet rfl (fun _ => ⟨rfl, rfl⟩) (Nat.le_refl _) hsame
  | @complete c f req rc base calls hc hold htake hcalls hheard =>
      obtain ⟨hnext, hsub⟩ := takeResponse_sub htake
      obtain ⟨hmem, -⟩ := takeResponse_some htake
      have hcall : calls =
          [.responseCallback c.ptr req statusOk (getSeqId f.seqNum) f.payload] :=
        hcalls.resolve_left (fun hnone => hC.heard c hc req hmem (hheard hnone))
      subst hcall
      refine hC.settle hc (fun r hr => hC.heard c hc r (hsub r hr)) (takeResponse_length htake) hnext
        (fun p => rfl) (fun p => ?_)
      by_cases hp : c.ptr = p <;> simp [callbacksOn, Call.isCallbackOn, hp]
  | @timeout c event ptr req rc base calls hc hout hcalls hheard =>
      obtain ⟨hnext, -⟩ := afIpcOnTimeout_sub hout
      obtain ⟨hmem, -⟩ := afIpcOnTimeout_some hout
      obtain ⟨hlen, hsub⟩ := afIpcOnTimeout_length hout
      have hcall : calls = [.responseCallback c.ptr req statusTimeout 0 []] :=
        hcalls.resolve_left (fun hnone => hC.heard c hc req hmem (hheard hnone))
      subst hcall
      refine hC.settle hc (fun r hr => ?_) hlen hnext (fun p => rfl) (fun p => ?_)
      · obtain ⟨r', hr', heq⟩ := hsub r hr
        rw [← heq]
        exact hC.heard c hc r' hr'
      · by_cases hp : c.ptr = p <;> simp [callbacksOn, Call.isCallbackOn, hp]

theorem Started.conserves {h : Endpoint} (hs : Started h) : Conserves h where
  heard := fun c hc r hr => absurd hr (hs.not_pending hc r)
  live := by
    intro c hc
    rw [(hs.conns c hc).2.2.1, hs.trace]
    rfl
  gone := by
    intro p
    rw [hs.trace]
    exact Nat.le_refl _
  unborn := by
    intro p _
    rw [hs.trace]
    rfl

/-- **Every run keeps the books.** -/
theorem Endpoint.Steps.conserves {h h' : Endpoint} (hsteps : h.Steps h') (hs : Started h)
    (happ : Attentive h'.trace) : Conserves h' := by
  induction hsteps with
  | refl => exact hs.conserves
  | tail hpast hstep ih =>
      have hattentive := happ
      obtain ⟨calls, htrace⟩ := hstep.trace
      rw [htrace] at hattentive
      exact hstep.conserves (Endpoint.Steps.lives hpast hs.lives) (ih hattentive.past) happ

-- ============================================================================
-- The end of a connection
-- ============================================================================

/-- The call is about a connection that is open. -/
def Call.uses (conn : Nat) : Call → Bool
  | .frame p _ => p = conn
  | .receiveCallback p _ _ _ => p = conn
  | .responseCallback p _ _ _ _ => p = conn
  | .sendmsg p _ _ _ ok => ok && p = conn
  | _ => false

/-- A connection that is used has not been reported closed or given back. -/
def OpenWhenUsed (past : List Call) (c : Call) : Prop :=
  ∀ conn, c.uses conn = true → closesOf conn past = 0 ∧ releasesOf conn past = 0

section OpenWhenUsed

theorem openWhenUsed_of_closing {c : Call} {conn : Nat} (h : c.closing conn = true)
    (past : List Call) : OpenWhenUsed past c := by
  intro p hp
  cases c with
  | sendmsg q fd sentBy packet ok =>
      cases ok with
      | true => cases h
      | false => cases hp
  | _ => first | cases hp | cases h

theorem openWhenUsed_of_inert {c : Call} (h : c.inert = true) (past : List Call) :
    OpenWhenUsed past c := by
  intro p hp
  cases c with
  | sendmsg q fd sentBy packet ok =>
      cases ok with
      | true => cases h
      | false => cases hp
  | _ => first | cases hp | cases h

variable {h : Endpoint} {c : Conn}

/-- A call that uses no connection but a live one. -/
theorem Lives.openWhenUsed (hl : Lives h) (hc : c ∈ h.conns) {call : Call}
    (huses : ∀ p, call.uses p = true → p = c.ptr) : OpenWhenUsed h.trace call := by
  intro p hp
  exact hl.still p (.inl ⟨c, hc, (huses p hp).symm⟩)

/-- A frame and what it is passed on by. -/
theorem Lives.openWhenUsed_frame (hl : Lives h) (hc : c ∈ h.conns) {f : Frame} {call : Call}
    (huses : ∀ p, call.uses p = true → p = c.ptr) :
    OpenWhenUsed (h.trace ++ [.frame c.ptr f]) call := by
  intro p hp
  have hstill := hl.openWhenUsed hc huses p hp
  rw [closesOf_append, releasesOf_append, hstill.1, hstill.2]
  exact ⟨rfl, rfl⟩

theorem uses_frame {f : Frame} (p : Nat) (hp : (Call.frame c.ptr f).uses p = true) : p = c.ptr := by
  simpa [Call.uses] using Eq.symm (of_decide_eq_true hp)

theorem uses_callback {req : Request} {status : Int} {seqNum : BitVec 32} {payload : List Byte}
    (p : Nat) (hp : (Call.responseCallback c.ptr req status seqNum payload).uses p = true) :
    p = c.ptr := Eq.symm (of_decide_eq_true hp)

end OpenWhenUsed

/-- **Every step uses live connections only.** -/
theorem Endpoint.Step.openWhenUsed {h h' : Endpoint} (hstep : h.Step h') (hl : Lives h)
    (ho : Justified OpenWhenUsed h.trace) : Justified OpenWhenUsed h'.trace := by
  cases hstep with
  | bump hn => exact ho
  | added id => exact ho
  | note hc => exact justified_concat.mpr ⟨ho, openWhenUsed_of_inert hc _⟩
  | arrive hptr hevent hpending hlast hcid =>
      exact justified_concat.mpr ⟨ho, openWhenUsed_of_inert rfl _⟩
  | refuse hcid => exact justified_concat.mpr ⟨ho, openWhenUsed_of_inert rfl _⟩
  | watch hc hevent => exact ho
  | send hc hsize hplain hroute =>
      refine justified_concat.mpr ⟨ho, hl.openWhenUsed hc (fun p hp => ?_)⟩
      exact Eq.symm (of_decide_eq_true hp)
  | register hc ht hsize hnum =>
      refine justified_concat.mpr ⟨ho, hl.openWhenUsed hc (fun p hp => ?_)⟩
      exact Eq.symm (of_decide_eq_true hp)
  | close hc hcalls hclose hrelease =>
      exact ho.append (fun call hmem past => openWhenUsed_of_closing (hcalls call hmem) past)
  | skip hc hskip => exact justified_concat.mpr ⟨ho, hl.openWhenUsed hc uses_frame⟩
  | @deliver c f context hc hnew =>
      have hframe := justified_concat.mpr ⟨ho, hl.openWhenUsed hc (uses_frame (f := f))⟩
      show Justified OpenWhenUsed (h.trace ++ [.frame c.ptr f, _])
      rw [List.append_cons]
      refine justified_concat.mpr ⟨hframe, hl.openWhenUsed_frame hc (fun p hp => ?_)⟩
      exact Eq.symm (of_decide_eq_true hp)
  | @complete c f req rc base calls hc hold htake hcalls hheard =>
      have hframe := justified_concat.mpr ⟨ho, hl.openWhenUsed hc (uses_frame (f := f))⟩
      show Justified OpenWhenUsed (h.trace ++ .frame c.ptr f :: calls)
      rcases hcalls with rfl | rfl
      · exact hframe
      · rw [List.append_cons]
        exact justified_concat.mpr ⟨hframe, hl.openWhenUsed_frame hc uses_callback⟩
  | @timeout c event ptr req rc base calls hc hout hcalls hheard =>
      show Justified OpenWhenUsed (h.trace ++ calls)
      rcases hcalls with rfl | rfl
      · rw [List.append_nil]
        exact ho
      · exact justified_concat.mpr ⟨ho, hl.openWhenUsed hc uses_callback⟩

/-- **Every run uses live connections only.** -/
theorem Endpoint.Steps.openWhenUsed {h h' : Endpoint} (hsteps : h.Steps h') (hs : Started h) :
    Justified OpenWhenUsed h'.trace := by
  induction hsteps with
  | refl =>
      rw [hs.trace]
      exact justified_nil
  | tail hpast hstep ih => exact hstep.openWhenUsed (Endpoint.Steps.lives hpast hs.lives) ih

end AfIpc.Ipc
