/-
  AfIpc.Ipc.Endpoint

  One side of the protocol as an abstract machine: its live connections with
  their request tables, the event base, and what has been observed so far.  The
  server is an endpoint with any number of connections, the client one with a
  single connection, and `Step` lists what either can do to its connections,
  whichever function does it.

  `Lives` is what every run of an endpoint keeps: connections are known apart,
  no event leads to a closed one, and each is closed and given back once.
-/

import Mathlib.Logic.Relation
import AfIpc.Lib.History
import AfIpc.Ipc.RequestSpec
import AfIpc.Ipc.Receive

namespace AfIpc.Ipc

open AfIpc.Lib

-- ============================================================================
-- Endpoints
-- ============================================================================

/-- A live connection: its address, its id, its receive event and its table. -/
structure Conn where
  ptr : Nat
  cid : BitVec 16
  event : Option Nat
  table : ReqControl

structure Endpoint where
  conns : List Conn
  lastCid : BitVec 16
  base : EventBase
  trace : List Call

namespace Endpoint

def note (h : Endpoint) (calls : List Call) : Endpoint := { h with trace := h.trace ++ calls }

def setBase (h : Endpoint) (base : EventBase) : Endpoint := { h with base := base }

/-- The record at the address of `c` replaced by `c`. -/
def setConn (h : Endpoint) (c : Conn) : Endpoint :=
  { h with conns := h.conns.map (fun d => if d.ptr = c.ptr then c else d) }

def without (h : Endpoint) (ptr : Nat) : Endpoint :=
  { h with conns := h.conns.filter (fun c => c.ptr ≠ ptr) }

end Endpoint

/-- The call says nothing about a connection. -/
def Call.inert : Call → Bool
  | .accept _ => true
  | .acceptCallback _ => true
  | .shutdown _ _ => true
  | .closeFd _ => true
  | .sendmsg _ _ _ _ ok => !ok
  | _ => false

/-- The call can be part of closing a connection. -/
def Call.closing (conn : Nat) : Call → Bool
  | .closeCallback p _ _ _ => p = conn
  | .release p => p = conn
  | c => c.inert

/-- An id the server can give next: no live connection has it, and as long as the
    ids have not wrapped it is the successor of the last. -/
structure NextCid (h : Endpoint) (cid : BitVec 16) : Prop where
  unused : ∀ c ∈ h.conns, c.cid ≠ cid
  succ : (∀ c ∈ h.conns, c.cid.toNat ≤ h.lastCid.toNat) → h.lastCid.toNat < 2 ^ 16 - 1 →
    cid.toNat = h.lastCid.toNat + 1

/-- A new request, or an unsolicited message. -/
def Frame.IsNew (f : Frame) : Prop :=
  getSeqId f.seqNum = 0 ∨ isNewRequest (getSeqId f.seqNum) = true

/-- What an endpoint can do in one go. -/
inductive Endpoint.Step : Endpoint → Endpoint → Prop
  /-- Addresses are used up. -/
  | bump {h : Endpoint} {n : Nat} (hn : h.base.next ≤ n) :
      Step h (h.setBase { h.base with next := n })
  | added {h : Endpoint} (id : Nat) : Step h (h.setBase (eventAdd id h.base))
  | note {h : Endpoint} {c : Call} (hc : c.inert = true) : Step h (h.note [c])
  /-- A connection is accepted; it has no receive event yet. -/
  | arrive {h : Endpoint} {c : Conn} {fd : Int} (hptr : c.ptr = h.base.next)
      (hevent : c.event = none) (hpending : c.table.pendingRequests = [])
      (hlast : c.table.lastSeqId = 0) (hcid : NextCid h c.cid) :
      Step h
        { conns := c :: h.conns, lastCid := c.cid,
          base := { h.base with next := h.base.next + 1 }, trace := h.trace ++ [.accept fd] }
  /-- An id is used up, but the connection comes to nothing. -/
  | refuse {h : Endpoint} {fd : Int} {cid : BitVec 16} (hcid : NextCid h cid) :
      Step h
        { conns := h.conns, lastCid := cid,
          base := { h.base with next := h.base.next + 1 }, trace := h.trace ++ [.accept fd] }
  | watch {h : Endpoint} {c : Conn} (hc : c ∈ h.conns) (hevent : c.event = none) :
      Step h ((h.setConn { c with event := some h.base.next }).setBase
        (eventNew (.client c.ptr) h.base).2)
  /-- A message that needs no entry in the table.  A response goes to the
      connection whose id its number holds, where there are ids. -/
  | send {h : Endpoint} {c : Conn} {fd : Int} {sentBy : SentBy} {packet : Packet}
      (hc : c ∈ h.conns) (hsize : packet.Whole → packet.frame.Deliverable)
      (hplain : sentBy ≠ .response → packet.hdr.seqNum = 0)
      (hroute : sentBy = .response →
        c.cid = getClientId packet.hdr.seqNum ∨ h.lastCid = 0) :
      Step h (h.note [.sendmsg c.ptr fd sentBy packet true])
  | register {h : Endpoint} {c : Conn} {fd : Int} {packet : Packet} {callback : Option Callback}
      {context : Context} {timeoutMs : Int} (hc : c ∈ h.conns) (ht : 0 < timeoutMs)
      (hsize : packet.Whole → packet.frame.Deliverable)
      (hnum : packet.hdr.seqNum = newSeqNum c.table ||| newRequestMask) :
      Step h ((((h.setConn
          { c with table := registerIn c.table h.base callback context timeoutMs }).setBase
        (armTimer h.base))).note [.sendmsg c.ptr fd (.request callback context) packet true])
  | close {h : Endpoint} {c : Conn} {calls : List Call} (hc : c ∈ h.conns)
      (hcalls : ∀ call ∈ calls, call.closing c.ptr = true) (hclose : closesOf c.ptr calls ≤ 1)
      (hrelease : releasesOf c.ptr calls = 1) :
      Step h (((h.without c.ptr).setBase
        (afIpcUtilShutdownRequests c.table (eventFreeIf c.event h.base)).2).note calls)
  /-- A frame that no callback hears of: it is no response, or answers no request. -/
  | skip {h : Endpoint} {c : Conn} {f : Frame} (hc : c ∈ h.conns)
      (hskip : f.IsNew ∨ ∀ r ∈ c.table.pendingRequests, r.seqNum ≠ getSeqId f.seqNum) :
      Step h (h.note [.frame c.ptr f])
  | deliver {h : Endpoint} {c : Conn} {f : Frame} {context : Context} (hc : c ∈ h.conns)
      (hnew : f.IsNew) :
      Step h (h.note [.frame c.ptr f, .receiveCallback c.ptr
        (deliveredSeqNum c.cid (getSeqId f.seqNum)) f.payload context])
  | complete {h : Endpoint} {c : Conn} {f : Frame} {req : Request} {rc : ReqControl}
      {base : EventBase} {calls : List Call} (hc : c ∈ h.conns) (hold : ¬ f.IsNew)
      (htake : takeResponse (getSeqId f.seqNum) c.table h.base = (some req, rc, base))
      (hcalls : calls = [] ∨
        calls = [.responseCallback c.ptr req statusOk (getSeqId f.seqNum) f.payload])
      (hheard : calls = [] → req.responseCallback = none) :
      Step h (((h.setConn { c with table := rc }).setBase base).note (.frame c.ptr f :: calls))
  | timeout {h : Endpoint} {c : Conn} {event ptr : Nat} {req : Request} {rc : ReqControl}
      {base : EventBase} {calls : List Call} (hc : c ∈ h.conns)
      (hout : afIpcOnTimeout ptr c.table (timerFired event h.base) = .ok (req, rc, base))
      (hcalls : calls = [] ∨ calls = [.responseCallback c.ptr req statusTimeout 0 []])
      (hheard : calls = [] → req.responseCallback = none) :
      Step h (((h.setConn { c with table := rc }).setBase base).note calls)

/-- What an endpoint can do. -/
abbrev Endpoint.Steps : Endpoint → Endpoint → Prop := Relation.ReflTransGen Endpoint.Step

-- ============================================================================
-- Connections
-- ============================================================================

section Conns

variable {h : Endpoint} {c d : Conn}

theorem mem_setConn (hd : d ∈ (h.setConn c).conns) :
    d = c ∨ (d ∈ h.conns ∧ d.ptr ≠ c.ptr) := by
  obtain ⟨d', hd', rfl⟩ := List.mem_map.mp hd
  by_cases hptr : d'.ptr = c.ptr
  · exact .inl (if_pos hptr)
  · rw [if_neg hptr]
    exact .inr ⟨hd', hptr⟩

theorem setConn_self (hd : d ∈ h.conns) (hptr : d.ptr = c.ptr) : c ∈ (h.setConn c).conns :=
  List.mem_map.mpr ⟨d, hd, if_pos hptr⟩

theorem setConn_other (hd : d ∈ h.conns) (hptr : d.ptr ≠ c.ptr) : d ∈ (h.setConn c).conns :=
  List.mem_map.mpr ⟨d, hd, if_neg hptr⟩

/-- A key that the new record shares with the old keeps its values. -/
theorem setConn_map {β : Type} (key : Conn → β)
    (hkey : ∀ d ∈ h.conns, d.ptr = c.ptr → key d = key c) :
    (h.setConn c).conns.map key = h.conns.map key := by
  rw [Endpoint.setConn, List.map_map]
  apply List.map_congr_left
  intro d hd
  by_cases hptr : d.ptr = c.ptr
  · simp only [Function.comp_apply, if_pos hptr, hkey d hd hptr]
  · simp only [Function.comp_apply, if_neg hptr]

/-- Replacing a connection and leaving it out is leaving it out. -/
theorem setConn_without (h : Endpoint) (c : Conn) :
    (h.setConn c).without c.ptr = h.without c.ptr := by
  have hfilter : (h.conns.map (fun d => if d.ptr = c.ptr then c else d)).filter
      (fun d => d.ptr ≠ c.ptr) = h.conns.filter (fun d => d.ptr ≠ c.ptr) := by
    induction h.conns with
    | nil => rfl
    | cons d conns ih =>
        rw [List.map_cons]
        by_cases hptr : d.ptr = c.ptr
        · rw [if_pos hptr, List.filter_cons_of_neg (by simp), List.filter_cons_of_neg (by simp [hptr]),
            ih]
        · rw [if_neg hptr, List.filter_cons_of_pos (by simp [hptr]),
            List.filter_cons_of_pos (by simp [hptr]), ih]
  exact congrArg (fun conns => Endpoint.mk conns h.lastCid h.base h.trace) hfilter

theorem mem_without {ptr : Nat} : d ∈ (h.without ptr).conns ↔ d ∈ h.conns ∧ d.ptr ≠ ptr := by
  simp [Endpoint.without]

end Conns

-- ============================================================================
-- What every run keeps
-- ============================================================================

structure Lives (h : Endpoint) : Prop where
  ptrs : (h.conns.map Conn.ptr).Nodup
  cids : (h.conns.map Conn.cid).Nodup
  below : ∀ c ∈ h.conns, c.ptr < h.base.next
  requests : ∀ c ∈ h.conns, ∀ r ∈ c.table.pendingRequests, r.ptr < h.base.next
  events : ∀ e ∈ h.base.events, e.id < h.base.next
  /-- Only live connections are waited on. -/
  watched : h.base.All (fun id arg => ∀ ptr, arg = .client ptr →
    ∃ c ∈ h.conns, c.ptr = ptr ∧ c.event = some id)
  taken : ∀ conn f, .frame conn f ∈ h.trace → conn < h.base.next
  once : ∀ p, closesOf p h.trace ≤ 1 ∧ releasesOf p h.trace ≤ 1
  /-- Nothing has been closed yet that is live or unborn. -/
  still : ∀ p, (∃ c ∈ h.conns, c.ptr = p) ∨ h.base.next ≤ p →
    closesOf p h.trace = 0 ∧ releasesOf p h.trace = 0

section Lives

variable {h : Endpoint} {c : Conn}

theorem Lives.fresh (hl : Lives h) (hc : c ∈ h.conns) : Fresh c.table h.base :=
  ⟨hl.requests c hc, hl.events⟩

theorem Lives.eq_of_ptr (hl : Lives h) {d : Conn} (hc : c ∈ h.conns) (hd : d ∈ h.conns)
    (hptr : d.ptr = c.ptr) : d = c :=
  List.inj_on_of_nodup_map hl.ptrs hd hc hptr

/-- Calls that close nothing, on connections that exist. -/
theorem Lives.note (hl : Lives h) {calls : List Call}
    (hclose : ∀ p, closesOf p calls = 0 ∧ releasesOf p calls = 0)
    (htaken : ∀ conn f, .frame conn f ∈ calls → conn < h.base.next) : Lives (h.note calls) where
  ptrs := hl.ptrs
  cids := hl.cids
  below := hl.below
  requests := hl.requests
  events := hl.events
  watched := hl.watched
  taken := by
    intro conn f hmem
    rcases List.mem_append.mp hmem with hold | hnew
    · exact hl.taken conn f hold
    · exact htaken conn f hnew
  once := by
    intro p
    have hold := hl.once p
    have hnew := hclose p
    show closesOf p (h.trace ++ calls) ≤ 1 ∧ releasesOf p (h.trace ++ calls) ≤ 1
    rw [closesOf_append, releasesOf_append]
    omega
  still := by
    intro p hp
    have hold := hl.still p hp
    have hnew := hclose p
    show closesOf p (h.trace ++ calls) = 0 ∧ releasesOf p (h.trace ++ calls) = 0
    rw [closesOf_append, releasesOf_append]
    omega

/-- Another event base that waits on no more connections. -/
theorem Lives.setBase (hl : Lives h) {base : EventBase} (hnext : h.base.next ≤ base.next)
    (hevents : ∀ e ∈ base.events, e.id < base.next)
    (hwatched : base.All (fun id arg => ∀ ptr, arg = .client ptr →
      ∃ c ∈ h.conns, c.ptr = ptr ∧ c.event = some id)) : Lives (h.setBase base) where
  ptrs := hl.ptrs
  cids := hl.cids
  below := fun c hc => Nat.lt_of_lt_of_le (hl.below c hc) hnext
  requests := fun c hc r hr => Nat.lt_of_lt_of_le (hl.requests c hc r hr) hnext
  events := hevents
  watched := hwatched
  taken := fun conn f hmem => Nat.lt_of_lt_of_le (hl.taken conn f hmem) hnext
  once := hl.once
  still := by
    intro p hp
    apply hl.still p
    rcases hp with hlive | hunborn
    · exact .inl hlive
    · exact .inr (Nat.le_trans hnext hunborn)

/-- Another request table. -/
theorem Lives.setTable (hl : Lives h) (hc : c ∈ h.conns) {rc : ReqControl}
    (hrc : ∀ r ∈ rc.pendingRequests, r.ptr < h.base.next) :
    Lives (h.setConn { c with table := rc }) where
  ptrs := by
    rw [setConn_map Conn.ptr (fun d _ hptr => hptr)]
    exact hl.ptrs
  cids := by
    rw [setConn_map Conn.cid (fun d hd hptr => by rw [hl.eq_of_ptr hc hd hptr])]
    exact hl.cids
  below := by
    intro d hd
    rcases mem_setConn hd with rfl | ⟨hd, _⟩
    · exact hl.below c hc
    · exact hl.below d hd
  requests := by
    intro d hd
    rcases mem_setConn hd with rfl | ⟨hd, _⟩
    · exact hrc
    · exact hl.requests d hd
  events := hl.events
  watched := by
    intro e he ptr harg
    obtain ⟨d, hd, hptr, hevent⟩ := hl.watched e he ptr harg
    by_cases heq : d.ptr = c.ptr
    · rw [hl.eq_of_ptr hc hd heq] at hptr hevent
      exact ⟨_, setConn_self hd heq, hptr, hevent⟩
    · exact ⟨d, setConn_other hd heq, hptr, hevent⟩
  taken := hl.taken
  once := hl.once
  still := by
    intro p hp
    apply hl.still p
    rcases hp with ⟨d, hd, hptr⟩ | hunborn
    · rcases mem_setConn hd with rfl | ⟨hd, _⟩
      · exact .inl ⟨c, hc, hptr⟩
      · exact .inl ⟨d, hd, hptr⟩
    · exact .inr hunborn

/-- A connection's table and the event base after a request has left them. -/
theorem Lives.settle (hl : Lives h) (hc : c ∈ h.conns) {rc : ReqControl} {base : EventBase}
    {calls : List Call} (hrc : ∀ r ∈ rc.pendingRequests, r.ptr < h.base.next)
    (hnext : base.next = h.base.next)
    (hbase : ∀ P : Nat → EventArg → Prop, h.base.All P → base.All P)
    (hclose : ∀ p, closesOf p calls = 0 ∧ releasesOf p calls = 0)
    (htaken : ∀ conn f, .frame conn f ∈ calls → conn < h.base.next) :
    Lives (((h.setConn { c with table := rc }).setBase base).note calls) := by
  have hset := hl.setTable hc hrc
  have hevents : base.All (fun id _ => id < base.next) := by
    rw [hnext]
    exact hbase _ hl.events
  refine (hset.setBase (Nat.le_of_eq hnext.symm) hevents (hbase _ hset.watched)).note hclose ?_
  intro conn f hmem
  show conn < base.next
  rw [hnext]
  exact htaken conn f hmem

/-- An inert call closes nothing. -/
theorem Call.inert_closes {call : Call} (hc : call.inert = true) (p : Nat) :
    closesOf p [call] = 0 ∧ releasesOf p [call] = 0 := by
  cases call <;> first | exact ⟨rfl, rfl⟩ | cases hc

theorem Lives.arrive (hl : Lives h) {fd : Int} (hptr : c.ptr = h.base.next)
    (hevent : c.event = none) (hpending : c.table.pendingRequests = [])
    (hunused : ∀ d ∈ h.conns, d.cid ≠ c.cid) :
    Lives
      { conns := c :: h.conns, lastCid := c.cid,
        base := { h.base with next := h.base.next + 1 }, trace := h.trace ++ [.accept fd] } := by
  have hnew := hl.still h.base.next (.inr (Nat.le_refl _))
  have hbumped : Lives ((h.note [.accept fd]).setBase { h.base with next := h.base.next + 1 }) := by
    refine (hl.note (fun p => ⟨rfl, rfl⟩) (fun conn f hmem => ?_)).setBase (Nat.le_succ _)
      (fun e he => Nat.lt_succ_of_lt (hl.events e he)) hl.watched
    simp at hmem
  exact
    { ptrs := by
        rw [List.map_cons, List.nodup_cons]
        refine ⟨fun hmem => ?_, hl.ptrs⟩
        obtain ⟨d, hd, heq⟩ := List.mem_map.mp hmem
        have hlt := hl.below d hd
        omega
      cids := by
        rw [List.map_cons, List.nodup_cons]
        refine ⟨fun hmem => ?_, hl.cids⟩
        obtain ⟨d, hd, heq⟩ := List.mem_map.mp hmem
        exact hunused d hd heq
      below := by
        intro d hd
        rcases List.mem_cons.mp hd with rfl | hd
        · rw [hptr]
          exact Nat.lt_succ_self _
        · exact hbumped.below d hd
      requests := by
        intro d hd r hr
        rcases List.mem_cons.mp hd with rfl | hd
        · rw [hpending] at hr
          cases hr
        · exact hbumped.requests d hd r hr
      events := hbumped.events
      watched := by
        intro e he ptr harg
        obtain ⟨d, hd, hrest⟩ := hl.watched e he ptr harg
        exact ⟨d, List.mem_cons_of_mem c hd, hrest⟩
      taken := hbumped.taken
      once := hbumped.once
      still := by
        intro p hp
        rcases hp with ⟨d, hd, rfl⟩ | hunborn
        · rcases List.mem_cons.mp hd with rfl | hd
          · -- the address has just been handed out
            rw [hptr]
            simpa [closesOf, releasesOf, Call.isClose, Call.isRelease] using hnew
          · exact hbumped.still d.ptr (.inl ⟨d, hd, rfl⟩)
        · exact hbumped.still p (.inr hunborn) }

theorem Lives.watch (hl : Lives h) (hc : c ∈ h.conns) (hevent : c.event = none) :
    Lives ((h.setConn { c with event := some h.base.next }).setBase
      (eventNew (.client c.ptr) h.base).2) where
  ptrs := by
    show ((h.setConn _).conns.map Conn.ptr).Nodup
    rw [setConn_map Conn.ptr (fun d _ hptr => hptr)]
    exact hl.ptrs
  cids := by
    show ((h.setConn _).conns.map Conn.cid).Nodup
    rw [setConn_map Conn.cid (fun d hd hptr => by rw [hl.eq_of_ptr hc hd hptr])]
    exact hl.cids
  below := by
    intro d hd
    apply Nat.lt_succ_of_lt
    rcases mem_setConn hd with rfl | ⟨hd, _⟩
    · exact hl.below c hc
    · exact hl.below d hd
  requests := by
    intro d hd r hr
    apply Nat.lt_succ_of_lt
    rcases mem_setConn hd with rfl | ⟨hd, _⟩
    · exact hl.requests c hc r hr
    · exact hl.requests d hd r hr
  events := by
    intro e he
    rcases List.mem_cons.mp he with rfl | he
    · exact Nat.lt_succ_self _
    · exact Nat.lt_succ_of_lt (hl.events e he)
  watched := by
    intro e he ptr harg
    rcases List.mem_cons.mp he with rfl | he
    · -- the new event
      cases harg
      exact ⟨_, setConn_self hc rfl, rfl, rfl⟩
    · obtain ⟨d, hd, hptr, hd'⟩ := hl.watched e he ptr harg
      have hne : d.ptr ≠ c.ptr := by
        intro heq
        rw [hl.eq_of_ptr hc hd heq, hevent] at hd'
        cases hd'
      exact ⟨d, setConn_other hd hne, hptr, hd'⟩
  taken := fun conn f hmem => Nat.lt_succ_of_lt (hl.taken conn f hmem)
  once := hl.once
  still := by
    intro p hp
    apply hl.still p
    rcases hp with ⟨d, hd, hptr⟩ | hunborn
    · rcases mem_setConn hd with rfl | ⟨hd, _⟩
      · exact .inl ⟨c, hc, hptr⟩
      · exact .inl ⟨d, hd, hptr⟩
    · exact .inr (Nat.le_of_succ_le hunborn)

/-- The calls of closing a connection are about no other. -/
theorem Call.closing_other {call : Call} {conn p : Nat} (h : call.closing conn = true)
    (hne : p ≠ conn) : call.isClose p = false ∧ call.isRelease p = false := by
  cases call <;>
    first
    | exact ⟨rfl, rfl⟩
    | (simp only [Call.closing, decide_eq_true_eq] at h
       subst h
       exact ⟨by simp [Call.isClose, Ne.symm hne], by simp [Call.isRelease, Ne.symm hne]⟩)

theorem closing_counts {calls : List Call} {conn p : Nat}
    (h : ∀ call ∈ calls, call.closing conn = true) (hne : p ≠ conn) :
    closesOf p calls = 0 ∧ releasesOf p calls = 0 := by
  refine ⟨?_, ?_⟩
  · rw [closesOf, List.countP_eq_zero]
    intro call hmem
    rw [(Call.closing_other (h call hmem) hne).1]
    exact Bool.false_ne_true
  · rw [releasesOf, List.countP_eq_zero]
    intro call hmem
    rw [(Call.closing_other (h call hmem) hne).2]
    exact Bool.false_ne_true

theorem Lives.close (hl : Lives h) (hc : c ∈ h.conns) {calls : List Call}
    (hcalls : ∀ call ∈ calls, call.closing c.ptr = true) (hclose : closesOf c.ptr calls ≤ 1)
    (hrelease : releasesOf c.ptr calls ≤ 1) :
    Lives (((h.without c.ptr).setBase
      (afIpcUtilShutdownRequests c.table (eventFreeIf c.event h.base)).2).note calls) := by
  have hnext : (afIpcUtilShutdownRequests c.table (eventFreeIf c.event h.base)).2.next =
      h.base.next := by
    rw [shutdownRequests_next, eventFreeIf_next]
  have hbelow : h.base.All (fun id _ => id < h.base.next) := hl.events
  have hevents := (hbelow.eventFreeIf_weak c.event).shutdown c.table
  -- the freed event was the only one of the connection
  have hwatched : (eventFreeIf c.event h.base).All (fun id arg => ∀ ptr, arg = .client ptr →
      ∃ d ∈ (h.without c.ptr).conns, d.ptr = ptr ∧ d.event = some id) := by
    refine (EventBase.All.eventFreeIf hl.watched c.event).mono ?_
    rintro id arg ⟨hw, hne⟩ ptr harg
    obtain ⟨d, hd, hptr, hevent⟩ := hw ptr harg
    refine ⟨d, mem_without.mpr ⟨hd, fun heq => ?_⟩, hptr, hevent⟩
    rw [hl.eq_of_ptr hc hd heq] at hevent
    exact hne hevent
  exact
    { ptrs := hl.ptrs.sublist (List.filter_sublist.map _)
      cids := hl.cids.sublist (List.filter_sublist.map _)
      below := by
        intro d hd
        show d.ptr < (afIpcUtilShutdownRequests c.table (eventFreeIf c.event h.base)).2.next
        rw [hnext]
        exact hl.below d (mem_without.mp hd).1
      requests := by
        intro d hd r hr
        show r.ptr < (afIpcUtilShutdownRequests c.table (eventFreeIf c.event h.base)).2.next
        rw [hnext]
        exact hl.requests d (mem_without.mp hd).1 r hr
      events := by
        intro e he
        show e.id < (afIpcUtilShutdownRequests c.table (eventFreeIf c.event h.base)).2.next
        rw [hnext]
        exact hevents e he
      watched := hwatched.shutdown c.table
      taken := by
        intro conn f hmem
        show conn < (afIpcUtilShutdownRequests c.table (eventFreeIf c.event h.base)).2.next
        rw [hnext]
        rcases List.mem_append.mp hmem with hold | hnew
        · exact hl.taken conn f hold
        · cases hcalls _ hnew
      once := by
        intro p
        have hold := hl.once p
        show closesOf p (h.trace ++ calls) ≤ 1 ∧ releasesOf p (h.trace ++ calls) ≤ 1
        rw [closesOf_append, releasesOf_append]
        by_cases hp : p = c.ptr
        · subst hp
          have hstill := hl.still c.ptr (.inl ⟨c, hc, rfl⟩)
          omega
        · have hnew := closing_counts hcalls hp
          omega
      still := by
        intro p hp
        have hne : p ≠ c.ptr := by
          rcases hp with ⟨d, hd, rfl⟩ | hunborn
          · exact (mem_without.mp hd).2
          · have hlt := hl.below c hc
            have hle : h.base.next ≤ p := by
              rw [← hnext]
              exact hunborn
            omega
        have hold := hl.still p (by
          rcases hp with ⟨d, hd, hptr⟩ | hunborn
          · exact .inl ⟨d, (mem_without.mp hd).1, hptr⟩
          · right
            rw [← hnext]
            exact hunborn)
        have hnew := closing_counts hcalls hne
        show closesOf p (h.trace ++ calls) = 0 ∧ releasesOf p (h.trace ++ calls) = 0
        rw [closesOf_append, releasesOf_append]
        omega }

/-- **Every step keeps it.** -/
theorem Endpoint.Step.lives {h h' : Endpoint} (hstep : h.Step h') (hl : Lives h) : Lives h' := by
  have hbelow : h.base.All (fun id _ => id < h.base.next) := hl.events
  cases hstep with
  | bump hn =>
      exact hl.setBase hn (fun e he => Nat.lt_of_lt_of_le (hl.events e he) hn) hl.watched
  | added id =>
      exact hl.setBase (Nat.le_refl _) (hbelow.eventAdd id) (EventBase.All.eventAdd hl.watched id)
  | note hc =>
      refine hl.note (Call.inert_closes hc) (fun conn f hmem => ?_)
      rw [List.mem_singleton] at hmem
      subst hmem
      cases hc
  | arrive hptr hevent hpending hlast hcid => exact hl.arrive hptr hevent hpending hcid.unused
  | @refuse fd cid hcid =>
      have hbumped : Lives ((h.note [.accept fd]).setBase
          { h.base with next := h.base.next + 1 }) := by
        refine (hl.note (fun p => ⟨rfl, rfl⟩) (fun conn f hmem => ?_)).setBase (Nat.le_succ _)
          (fun e he => Nat.lt_succ_of_lt (hl.events e he)) hl.watched
        simp at hmem
      exact { hbumped with }
  | watch hc hevent => exact hl.watch hc hevent
  | send hc hsize hplain hroute =>
      exact hl.note (fun p => ⟨rfl, rfl⟩) (fun conn f hmem => by simp at hmem)
  | @register c fd packet callback context timeoutMs hc ht hsize hnum =>
      have hclient : ∀ ptr, EventArg.request h.base.next = .client ptr →
          ∃ d ∈ h.conns, d.ptr = ptr ∧ d.event = some (h.base.next + 1) := by
        intro ptr harg
        cases harg
      have harmed : Lives (h.setBase (armTimer h.base)) := by
        refine hl.setBase (Nat.le_add_right _ 2) (fun e he => ?_) (fun e he => ?_)
        · rcases List.mem_cons.mp he with rfl | he
          · exact Nat.lt_succ_self _
          · exact Nat.lt_add_right 2 (hl.events e he)
        · rcases List.mem_cons.mp he with rfl | he
          · exact hclient
          · exact hl.watched e he
      have hregistered : Lives ((h.setBase (armTimer h.base)).setConn
          { c with table := registerIn c.table h.base callback context timeoutMs }) := by
        refine harmed.setTable hc (fun r hr => ?_)
        rcases List.mem_cons.mp hr with rfl | hr
        · exact Nat.lt_add_of_pos_right (by omega)
        · exact Nat.lt_add_right 2 (hl.requests c hc r hr)
      exact hregistered.note (fun p => ⟨rfl, rfl⟩) (fun conn f hmem => by simp at hmem)
  | close hc hcalls hclose hrelease => exact hl.close hc hcalls hclose (Nat.le_of_eq hrelease)
  | @skip c f hc hskip =>
      refine hl.note (fun p => ⟨rfl, rfl⟩) (fun conn f' hmem => ?_)
      cases List.mem_singleton.mp hmem
      exact hl.below c hc
  | @deliver c f context hc hnew =>
      refine hl.note (fun p => ⟨rfl, rfl⟩) (fun conn f' hmem => ?_)
      have hframe : Call.frame conn f' = .frame c.ptr f := by simpa using hmem
      cases hframe
      exact hl.below c hc
  | @complete c f req rc base calls hc hold htake hcalls =>
      obtain ⟨hnext, hsub⟩ := takeResponse_sub htake
      refine hl.settle hc (fun r hr => hl.requests c hc r (hsub r hr)) hnext (fun P hP => hP.taken htake)
        (fun p => ?_) (fun conn f' hmem => ?_)
      · rcases hcalls with rfl | rfl <;> exact ⟨rfl, rfl⟩
      · have hframe : Call.frame conn f' = .frame c.ptr f := by
          rcases hcalls with rfl | rfl <;> simpa using hmem
        cases hframe
        exact hl.below c hc
  | @timeout c event ptr req rc base calls hc hout hcalls =>
      obtain ⟨hnext, hsub⟩ := afIpcOnTimeout_sub hout
      refine hl.settle hc (fun r hr => ?_) hnext (fun P hP => (hP.timerFired event).onTimeout hout)
        (fun p => ?_) (fun conn f' hmem => ?_)
      · obtain ⟨r', hr', heq⟩ := hsub r hr
        rw [← heq]
        exact hl.requests c hc r' hr'
      · rcases hcalls with rfl | rfl <;> exact ⟨rfl, rfl⟩
      · rcases hcalls with rfl | rfl <;> simp at hmem

/-- **Every run keeps it.** -/
theorem Endpoint.Steps.lives {h h' : Endpoint} (hsteps : h.Steps h') (hl : Lives h) : Lives h' := by
  induction hsteps with
  | refl => exact hl
  | tail _ hstep ih => exact hstep.lives ih

end Lives

-- ============================================================================
-- Sending
-- ============================================================================

/-- The `sendmsg` that `af_ipc_send` came to, if it did. -/
def sendCalls (conn : Nat) (fd : Int) (sentBy : SentBy) (packet : Option Packet) (ok : Bool) :
    List Call :=
  match packet with
  | some packet => [.sendmsg conn fd sentBy packet ok]
  | none => []

theorem note_nil (h : Endpoint) : h.note [] = h := by
  rw [Endpoint.note, List.append_nil]

theorem note_note (h : Endpoint) (calls calls' : List Call) :
    (h.note calls).note calls' = h.note (calls ++ calls') := by
  rw [Endpoint.note, Endpoint.note, Endpoint.note, List.append_assoc]

theorem Lives.setConn_eq {h : Endpoint} {c : Conn} (hl : Lives h) (hc : c ∈ h.conns) :
    h.setConn c = h := by
  have hmap : h.conns.map (fun d => if d.ptr = c.ptr then c else d) = h.conns := by
    conv_rhs => rw [← List.map_id h.conns]
    apply List.map_congr_left
    intro d hd
    split_ifs with hptr
    · exact (hl.eq_of_ptr hc hd hptr).symm
    · rfl
  rw [Endpoint.setConn, hmap]

section Send

variable {h : Endpoint} {c : Conn} (fd : Int) {sentBy : SentBy} {rc : Option ReqControl}
  {seqNum : BitVec 32} {txBuffer : List Byte} {txBufferSize : Int} {callback : Option Callback}
  {context : Context} {timeoutMs : Int} {env : SendEnv}

/-- A send on a connection that succeeds is a step. -/
theorem afIpcSend_step (hl : Lives h) (hc : c ∈ h.conns) (hrc : rc = none ∨ rc = some c.table)
    (hplain : sentBy ≠ .response → seqNum = 0)
    (hroute : sentBy = .response → c.cid = getClientId seqNum ∨ h.lastCid = 0)
    (hreq : 0 < timeoutMs → sentBy = .request callback context)
    (hs : sendSucceeds rc txBufferSize timeoutMs env = true) {r : SendResult}
    (hr : r = afIpcSend rc h.base seqNum txBuffer txBufferSize callback context timeoutMs env) :
    h.Step (((h.setConn { c with table := r.rc.getD c.table }).setBase r.base).note
      (sendCalls c.ptr fd sentBy r.packet env.sendmsg)) := by
  obtain ⟨hover, hmsg⟩ := sendSucceeds_fits hs
  have hsize : ∀ num, (makePacket num txBuffer txBufferSize).Whole →
      (makePacket num txBuffer txBufferSize).frame.Deliverable :=
    fun num => makePacket_deliverable hover
  rw [hmsg]
  by_cases ht : 0 < timeoutMs
  · have hsome : rc = some c.table := by
      rcases hrc with rfl | hsome
      · simp [sendSucceeds] at hs
        omega
      · exact hsome
    subst hsome
    rw [afIpcSend_register hs ht (hl.fresh hc)] at hr
    subst hr
    rw [hreq ht]
    exact .register hc ht (hsize _) rfl
  · rw [afIpcSend_plain hs (by omega)] at hr
    subst hr
    have htable : rc.getD c.table = c.table := by
      rcases hrc with rfl | rfl <;> rfl
    show h.Step (((h.setConn { c with table := rc.getD c.table }).setBase h.base).note _)
    rw [htable]
    have hsame : (h.setConn { c with table := c.table }).setBase h.base = h := hl.setConn_eq hc
    rw [hsame]
    exact .send hc (hsize _) hplain hroute

/-- An unsolicited message whose failure goes unnoticed. -/
theorem afIpcSend_unnoticed_steps (hc : c ∈ h.conns) {r : SendResult}
    (hr : r = afIpcSend none h.base 0 txBuffer txBufferSize none 0 0 env) :
    h.Steps (h.note (sendCalls c.ptr fd .unsolicited r.packet env.sendmsg)) := by
  cases hs : sendSucceeds none txBufferSize 0 env with
  | true =>
      obtain ⟨hover, hmsg⟩ := sendSucceeds_fits hs
      rw [afIpcSend_plain hs (Int.le_refl 0)] at hr
      subst hr
      rw [hmsg]
      exact .single (.send hc (makePacket_deliverable hover) (fun _ => rfl) (fun heq => by cases heq))
  | false =>
      obtain ⟨errno, packet, rc', next, heq, _, hmsg, _⟩ :=
        @afIpcSend_fail none h.base 0 txBuffer txBufferSize none 0 0 env hs
          (fun table hnone => by cases hnone)
      rw [heq] at hr
      subst hr
      cases packet with
      | none =>
          show h.Steps (h.note [])
          rw [note_nil]
      | some packet => exact .single (.note (by simp [Call.inert, hmsg rfl]))

variable (sentBy) in
/-- A send on a connection that fails, and the end of the connection. -/
theorem afIpcSend_close_steps (hl : Lives h) (hc : c ∈ h.conns)
    (hrc : rc = none ∨ rc = some c.table)
    (hs : sendSucceeds rc txBufferSize timeoutMs env = false) {r : SendResult}
    (hr : r = afIpcSend rc h.base seqNum txBuffer txBufferSize callback context timeoutMs env)
    {calls : List Call} (hcalls : ∀ call ∈ calls, call.closing c.ptr = true)
    (hclose : closesOf c.ptr calls ≤ 1) (hrelease : releasesOf c.ptr calls = 1) :
    h.Steps (((h.without c.ptr).setBase
        (afIpcUtilShutdownRequests (r.rc.getD c.table) (eventFreeIf c.event r.base)).2).note
      (sendCalls c.ptr fd sentBy r.packet env.sendmsg ++ calls)) := by
  have hfresh : ∀ table, rc = some table → Fresh table h.base := by
    rintro table rfl
    rcases hrc with hnone | hsome
    · cases hnone
    · cases hsome
      exact hl.fresh hc
  obtain ⟨errno, packet, rc', next, heq, hnext, hmsg, hrc'⟩ :=
    @afIpcSend_fail rc h.base seqNum txBuffer txBufferSize callback context timeoutMs env hs hfresh
  rw [heq] at hr
  subst hr
  have hbump : h.Step (h.setBase { h.base with next := next }) := .bump hnext
  have hnote : (h.setBase { h.base with next := next }).Steps
      ((h.setBase { h.base with next := next }).note
        (sendCalls c.ptr fd sentBy packet env.sendmsg)) := by
    cases packet with
    | none =>
        rw [sendCalls, note_nil]
    | some packet => exact .single (.note (by simp [Call.inert, hmsg rfl]))
  have hclosed : ((h.setBase { h.base with next := next }).note
      (sendCalls c.ptr fd sentBy packet env.sendmsg)).Step _ :=
    .close hc hcalls hclose hrelease
  -- the table that is shut down has the same requests
  have htable : (rc'.getD c.table).pendingRequests = c.table.pendingRequests := by
    rcases hrc' with rfl | ⟨table, rfl, rfl⟩
    · rcases hrc with rfl | rfl <;> rfl
    · rcases hrc with hnone | hsome
      · cases hnone
      · cases hsome
        rfl
  have hshut : (afIpcUtilShutdownRequests (rc'.getD c.table)
        (eventFreeIf c.event { h.base with next := next })).2 =
      (afIpcUtilShutdownRequests c.table (eventFreeIf c.event { h.base with next := next })).2 := by
    simp only [afIpcUtilShutdownRequests, htable]
  refine ((Relation.ReflTransGen.single hbump).trans hnote).tail ?_
  show Endpoint.Step _ (((h.without c.ptr).setBase
    (afIpcUtilShutdownRequests (rc'.getD c.table)
      (eventFreeIf c.event { h.base with next := next })).2).note _)
  rw [hshut, ← note_note]
  exact hclosed

end Send

end AfIpc.Ipc
