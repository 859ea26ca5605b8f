/-
  AfIpc.Ipc.Timed

  The timers of an endpoint.  Its tables share one event base, in which every request
  that waits has an event made for it (`Timed`), and every event made for a request
  belongs to one that waits.  What is freed on the one side is freed on the other,
  whichever of a response, a timeout or the end of the connection does it, and no
  other table loses anything by it.

  A response is matched by its number, so this needs the numbers to be unique.
-/

import AfIpc.Ipc.Apart

namespace AfIpc.Ipc

open AfIpc.Lib

-- ============================================================================
-- Live events
-- ============================================================================

/-- There is a live event at the address, made with the argument. -/
def EventBase.Has (base : EventBase) (id : Nat) (arg : EventArg) : Prop :=
  ∃ e ∈ base.events, e.id = id ∧ e.arg = arg

namespace EventBase.Has

variable {base : EventBase} {id : Nat} {arg : EventArg}

/-- Events whose address and argument are kept. -/
theorem map (h : base.Has id arg) {f : Event → Event} {next : Nat}
    (hid : ∀ e, (f e).id = e.id) (harg : ∀ e, (f e).arg = e.arg) :
    EventBase.Has ⟨base.events.map f, next⟩ id arg := by
  obtain ⟨e, he, rfl, rfl⟩ := h
  exact ⟨f e, List.mem_map_of_mem he, hid e, harg e⟩

theorem eventAdd (h : base.Has id arg) (event : Nat) : (Ipc.eventAdd event base).Has id arg := by
  refine h.map (fun e => ?_) (fun e => ?_)
  · split_ifs <;> rfl
  · split_ifs <;> rfl

theorem timerFired (h : base.Has id arg) (event : Nat) :
    (Ipc.timerFired event base).Has id arg := by
  refine h.map (fun e => ?_) (fun e => ?_)
  · split_ifs <;> rfl
  · split_ifs <;> rfl

theorem cons (h : base.Has id arg) (e : Event) (next : Nat) :
    EventBase.Has ⟨e :: base.events, next⟩ id arg := by
  obtain ⟨e', he', hid, harg⟩ := h
  exact ⟨e', List.mem_cons_of_mem e he', hid, harg⟩

/-- Another event is freed. -/
theorem eventFreeIf (h : base.Has id arg) {event : Option Nat} (hne : event ≠ some id) :
    (Ipc.eventFreeIf event base).Has id arg := by
  obtain ⟨e, he, rfl, rfl⟩ := h
  cases event with
  | none => exact ⟨e, he, rfl, rfl⟩
  | some event =>
      have hkept : e.id ≠ event := fun heq => hne (congrArg some heq.symm)
      exact ⟨e, List.mem_filter.mpr ⟨he, by simpa using hkept⟩, rfl, rfl⟩

/-- A table without a request of this event is shut down. -/
theorem shutdown (h : base.Has id arg) {rc : ReqControl}
    (hne : ∀ r ∈ rc.pendingRequests, r.event ≠ some id) :
    (afIpcUtilShutdownRequests rc base).2.Has id arg := by
  unfold afIpcUtilShutdownRequests
  revert hne
  generalize rc.pendingRequests = reqs
  intro hne
  induction reqs generalizing base with
  | nil => exact h
  | cons r reqs ih =>
      exact ih (h.eventFreeIf (hne r List.mem_cons_self))
        (fun r' hr' => hne r' (List.mem_cons_of_mem r hr'))

end EventBase.Has

-- ============================================================================
-- The invariant
-- ============================================================================

structure Timed (h : Endpoint) : Prop where
  /-- A request that waits has its timer. -/
  held : ∀ c ∈ h.conns, ∀ r ∈ c.table.pendingRequests, ∃ id, r.event = some id ∧
    h.base.Has id (.request r.ptr)
  /-- The receive event of a connection is no timer. -/
  receives : h.base.All (fun id arg => ∀ c ∈ h.conns, c.event = some id → ∀ ptr, arg ≠ .request ptr)
  below : ∀ c ∈ h.conns, ∀ id, c.event = some id → id < h.base.next

/-- The receive events that there are to begin with have an address. -/
def Placed (h : Endpoint) : Prop := ∀ c ∈ h.conns, ∀ id, c.event = some id → id < h.base.next

theorem Started.apart {h : Endpoint} (hs : Started h) : Apart h where
  tables := fun _ hc _ _ r hr => absurd hr (hs.not_pending hc r)
  timers := fun _ _ _ hc r hr => absurd hr (hs.not_pending hc r)
  below := fun _ hc r hr => absurd hr (hs.not_pending hc r)

theorem Started.timed {h : Endpoint} (hs : Started h) (hplaced : Placed h) : Timed h where
  held := fun _ hc r hr => absurd hr (hs.not_pending hc r)
  receives := by
    intro e he c hc hevent ptr harg
    rw [(hs.events e he).2] at harg
    cases harg
  below := hplaced

section Timed

variable {h : Endpoint} {c d : Conn} {r r' : Request}

/-- A timer is that of one request only. -/
theorem Timed.own (ht : Timed h) (ha : Apart h) (hc : c ∈ h.conns)
    (hr : r ∈ c.table.pendingRequests) (hd : d ∈ h.conns) (hr' : r' ∈ d.table.pendingRequests)
    {id : Nat} (hevent : r.event = some id) (hevent' : r'.event = some id) : r.ptr = r'.ptr := by
  obtain ⟨id', hid', e, he, hid, harg⟩ := ht.held c hc r hr
  obtain rfl : id = id' := Option.some.inj (hevent.symm.trans hid')
  have hother := ha.timers e he d hd r' hr' (by rw [hevent', hid])
  rw [harg] at hother
  exact EventArg.request.inj hother

/-- Nothing is freed that a request that stays holds. -/
theorem Timed.fewer (ht : Timed h) {h' : Endpoint} (hnext : h.base.next ≤ h'.base.next)
    (hconns : ∀ d ∈ h'.conns, ∃ c ∈ h.conns, c.event = d.event ∧
      ∀ r ∈ d.table.pendingRequests, r ∈ c.table.pendingRequests)
    (hall : ∀ P : Nat → EventArg → Prop, h.base.All P → h'.base.All P)
    (hkept : ∀ d ∈ h'.conns, ∀ r ∈ d.table.pendingRequests, ∀ id, r.event = some id →
      h.base.Has id (.request r.ptr) → h'.base.Has id (.request r.ptr)) : Timed h' where
  held := by
    intro d hd r hr
    obtain ⟨c, hc, -, hsub⟩ := hconns d hd
    obtain ⟨id, hid, hhas⟩ := ht.held c hc r (hsub r hr)
    exact ⟨id, hid, hkept d hd r hr id hid hhas⟩
  receives := by
    refine (hall _ ht.receives).mono (fun id arg hp d hd hevent => ?_)
    obtain ⟨c, hc, hsame, -⟩ := hconns d hd
    exact hp c hc (hsame.trans hevent)
  below := by
    intro d hd id hid
    obtain ⟨c, hc, hsame, -⟩ := hconns d hd
    exact Nat.lt_of_lt_of_le (ht.below c hc id (hsame.trans hid)) hnext

theorem Timed.note (ht : Timed h) (calls : List Call) : Timed (h.note calls) :=
  ⟨ht.held, ht.receives, ht.below⟩

/-- A request leaves its table, and its timer the event base. -/
theorem Timed.settle (ht : Timed h) (ha : Apart h) (hc : c ∈ h.conns) {req : Request}
    (hmem : req ∈ c.table.pendingRequests) (base : EventBase) (hnext : base.next = h.base.next)
    (hall : ∀ P : Nat → EventArg → Prop, h.base.All P → base.All P)
    (hhas : ∀ id arg, h.base.Has id arg → base.Has id arg) :
    Timed ((h.setConn { c with table := c.table.without req.ptr }).setBase
      (eventFreeIf req.event base)) := by
  have hold : ∀ d ∈ (h.setConn { c with table := c.table.without req.ptr }).conns,
      ∃ c' ∈ h.conns, c'.event = d.event ∧ ∀ r ∈ d.table.pendingRequests,
        r ∈ c'.table.pendingRequests ∧ r.ptr ≠ req.ptr := by
    intro d hd
    rcases mem_setConn hd with rfl | ⟨hd, hne⟩
    · refine ⟨c, hc, rfl, fun r hr => ?_⟩
      obtain ⟨hr, hptr⟩ := List.mem_filter.mp hr
      exact ⟨hr, by simpa using hptr⟩
    · -- no request is in two tables
      exact ⟨d, hd, rfl, fun r hr => ⟨hr, fun heq => hne (ha.tables d hd c hc r hr req hmem heq)⟩⟩
  refine ht.fewer ?_ (fun d hd => ?_) (fun P hP => (hall P hP).eventFreeIf_weak req.event) ?_
  · show h.base.next ≤ (eventFreeIf req.event base).next
    rw [eventFreeIf_next, hnext]
  · obtain ⟨c', hc', hevent, hsub⟩ := hold d hd
    exact ⟨c', hc', hevent, fun r hr => (hsub r hr).1⟩
  · intro d hd r hr id hid hlive
    obtain ⟨c', hc', -, hsub⟩ := hold d hd
    obtain ⟨hr', hne⟩ := hsub r hr
    refine (hhas _ _ hlive).eventFreeIf (fun hsame => hne ?_)
    exact ht.own ha hc' hr' hc hmem hid hsame

/-- A connection goes with its table and all their events. -/
theorem Timed.close (ht : Timed h) (ha : Apart h) (hc : c ∈ h.conns) :
    Timed ((h.without c.ptr).setBase
      (afIpcUtilShutdownRequests c.table (eventFreeIf c.event h.base)).2) := by
  refine ht.fewer ?_ (fun d hd => ⟨d, (mem_without.mp hd).1, rfl, fun r hr => hr⟩)
    (fun P hP => (hP.eventFreeIf_weak c.event).shutdown c.table) ?_
  · show h.base.next ≤ (afIpcUtilShutdownRequests c.table (eventFreeIf c.event h.base)).2.next
    rw [shutdownRequests_next, eventFreeIf_next]
  · intro d hd r hr id hid hlive
    obtain ⟨hd, hne⟩ := mem_without.mp hd
    refine (hlive.eventFreeIf (fun hevent => ?_)).shutdown (fun r' hr' hevent => ?_)
    · -- it is not the receive event
      obtain ⟨e, he, rfl, harg⟩ := hlive
      exact ht.receives e he c hc hevent r.ptr harg
    · exact hne (ha.tables d hd c hc r hr r' hr' (ht.own ha hd hr hc hr' hid hevent))

/-- A request is registered with its timer. -/
theorem Timed.register (ht : Timed h) (hc : c ∈ h.conns) (callback : Option Callback)
    (context : Context) (timeoutMs : Int) :
    Timed ((h.setConn { c with table := registerIn c.table h.base callback context timeoutMs }).setBase
      (armTimer h.base)) where
  held := by
    intro d hd r hr
    rcases mem_setConn hd with rfl | ⟨hd, -⟩
    · rcases List.mem_cons.mp hr with rfl | hr
      · exact ⟨h.base.next + 1, rfl, _, List.mem_cons_self, rfl, rfl⟩
      · obtain ⟨id, hid, hhas⟩ := ht.held c hc r hr
        exact ⟨id, hid, hhas.cons _ _⟩
    · obtain ⟨id, hid, hhas⟩ := ht.held d hd r hr
      exact ⟨id, hid, hhas.cons _ _⟩
  receives := by
    intro e he d hd hevent
    have hevent' : ∃ d' ∈ h.conns, d'.event = some e.id := by
      rcases mem_setConn hd with rfl | ⟨hd, -⟩
      · exact ⟨c, hc, hevent⟩
      · exact ⟨d, hd, hevent⟩
    obtain ⟨d', hd', hevent'⟩ := hevent'
    rcases List.mem_cons.mp he with rfl | he
    · -- the address of the timer is new
      have hlt : h.base.next + 1 < h.base.next := ht.below d' hd' _ hevent'
      omega
    · exact ht.receives e he d' hd' hevent'
  below := by
    intro d hd id hid
    rcases mem_setConn hd with rfl | ⟨hd, -⟩
    · exact Nat.lt_add_right 2 (ht.below c hc id hid)
    · exact Nat.lt_add_right 2 (ht.below d hd id hid)

/-- A connection gets its receive event. -/
theorem Timed.watch (ht : Timed h) (hl : Lives h) (hc : c ∈ h.conns) :
    Timed ((h.setConn { c with event := some h.base.next }).setBase
      (eventNew (.client c.ptr) h.base).2) where
  held := by
    intro d hd r hr
    rcases mem_setConn hd with rfl | ⟨hd, -⟩
    · obtain ⟨id, hid, hhas⟩ := ht.held c hc r hr
      exact ⟨id, hid, hhas.cons _ _⟩
    · obtain ⟨id, hid, hhas⟩ := ht.held d hd r hr
      exact ⟨id, hid, hhas.cons _ _⟩
  receives := by
    intro e he d hd hevent ptr harg
    rcases List.mem_cons.mp he with rfl | he
    · cases harg
    · rcases mem_setConn hd with rfl | ⟨hd, -⟩
      · have hlt := hl.events e he
        have hnew : h.base.next = e.id := Option.some.inj hevent
        omega
      · exact ht.receives e he d hd hevent ptr harg
  below := by
    intro d hd id hid
    rcases mem_setConn hd with rfl | ⟨hd, -⟩
    · obtain rfl : h.base.next = id := Option.some.inj hid
      exact Nat.lt_succ_self _
    · exact Nat.lt_succ_of_lt (ht.below d hd id hid)

end Timed

-- ============================================================================
-- Runs
-- ============================================================================

/-- **Every step keeps each request its timer.** -/
theorem Endpoint.Step.timed {h h' : Endpoint} (hstep : h.Step h') (hl : Lives h) (ha : Apart h)
    (hC : Correlates h) (ht : Timed h) : Timed h' := by
  cases hstep with
  | bump hn =>
      exact ht.fewer hn (fun d hd => ⟨d, hd, rfl, fun r hr => hr⟩) (fun P hP => hP)
        (fun d hd r hr id hid hhas => hhas)
  | added id =>
      exact ht.fewer (Nat.le_refl _) (fun d hd => ⟨d, hd, rfl, fun r hr => hr⟩)
        (fun P hP => hP.eventAdd id) (fun d hd r hr id' hid hhas => hhas.eventAdd id)
  | note hc => exact ht.note _
  | @arrive c fd hptr hevent hpending hlast hcid =>
      have hempty : ∀ r, r ∉ c.table.pendingRequests := by
        rw [hpending]
        exact fun r => List.not_mem_nil
      refine ⟨fun d hd r hr => ?_, fun e he d hd hid => ?_, fun d hd id hid => ?_⟩
      · rcases List.mem_cons.mp hd with rfl | hd
        · exact absurd hr (hempty r)
        · exact ht.held d hd r hr
      · rcases List.mem_cons.mp hd with rfl | hd
        · rw [hevent] at hid
          cases hid
        · exact ht.receives e he d hd hid
      · rcases List.mem_cons.mp hd with rfl | hd
        · rw [hevent] at hid
          cases hid
        · exact Nat.lt_succ_of_lt (ht.below d hd id hid)
  | refuse hcid =>
      exact ⟨ht.held, ht.receives, fun d hd id hid => Nat.lt_succ_of_lt (ht.below d hd id hid)⟩
  | watch hc hevent => exact ht.watch hl hc
  | send => exact ht.note _
  | @register c fd packet callback context timeoutMs hc ht' hsize hnum =>
      exact (ht.register hc callback context timeoutMs).note _
  | @close c calls hc hcalls hclose hrelease => exact (ht.close ha hc).note calls
  | skip => exact ht.note _
  | deliver => exact ht.note _
  | @complete c f req rc base calls hc hold htake hcalls =>
      obtain ⟨hmem, hnum, _⟩ := takeResponse_some htake
      rw [← hnum, takeResponse_eq (hC.seqNums c hc) (hC.ptrs c hc) hmem (hC.range c hc req hmem).2,
        Prod.mk.injEq, Prod.mk.injEq] at htake
      obtain ⟨_, rfl, rfl⟩ := htake
      exact (ht.settle ha hc hmem h.base rfl (fun _ hP => hP) (fun _ _ hhas => hhas)).note _
  | @timeout c event ptr req rc base calls hc hout hcalls =>
      obtain ⟨hmem, rfl⟩ := afIpcOnTimeout_some hout
      rw [afIpcOnTimeout_eq (hC.seqNums c hc) (hC.ptrs c hc) hmem, Except.ok.injEq, Prod.mk.injEq,
        Prod.mk.injEq] at hout
      obtain ⟨_, rfl, rfl⟩ := hout
      exact (ht.settle ha hc hmem (timerFired event h.base) rfl (fun _ hP => hP.timerFired event)
        (fun _ _ hhas => hhas.timerFired event)).note calls

/-- **Every run keeps them**, within the bounds. -/
theorem Endpoint.Steps.timed {h h' : Endpoint} (hsteps : h.Steps h') (hs : Sound h) (ha : Apart h)
    (ht : Timed h) (hbound : Bounded h'.trace) : Timed h' := by
  induction hsteps with
  | refl => exact ht
  | @tail u v hsteps hstep ih =>
      obtain ⟨calls, htrace⟩ := hstep.trace
      rw [htrace] at hbound
      have hsound : Sound u := Endpoint.Steps.sound hsteps hs
      have hapart : Apart u := Endpoint.Steps.apart hsteps hs.lives ha
      exact hstep.timed hsound.lives hapart (hsound.correlates hbound.past) (ih hbound.past)

-- ============================================================================
-- Requests and their timers
-- ============================================================================

/-- The requests that wait in the tables and the timers in the event base, one to one. -/
structure TimersOwned (base : EventBase) (tables : List ReqControl) : Prop where
  held : ∀ rc ∈ tables, ∀ r ∈ rc.pendingRequests, ∃ id, r.event = some id ∧
    base.Has id (.request r.ptr)
  owned : base.All (fun id arg => ∀ ptr, arg = .request ptr →
    ∃ rc ∈ tables, ∃ r ∈ rc.pendingRequests, r.ptr = ptr ∧ r.event = some id)
  distinct : ((tables.flatMap ReqControl.pendingRequests).map Request.ptr).Nodup

theorem timersOwned {h : Endpoint} (hl : Lives h) (ha : Apart h) (hC : Correlates h)
    (ht : Timed h) : TimersOwned h.base (h.conns.map Conn.table) where
  held := by
    intro rc hrc
    obtain ⟨c, hc, rfl⟩ := List.mem_map.mp hrc
    exact ht.held c hc
  owned := by
    intro e he ptr harg
    obtain ⟨c, hc, r, hr, hptr, hevent⟩ := hC.timers e he ptr harg
    exact ⟨c.table, List.mem_map_of_mem hc, r, hr, hptr, hevent⟩
  distinct := by
    rw [List.flatMap_map, List.map_flatMap, List.nodup_flatMap]
    refine ⟨fun c hc => hC.ptrs c hc, ?_⟩
    have hnodup : h.conns.Pairwise (fun c d => c.ptr ≠ d.ptr) := List.pairwise_map.mp hl.ptrs
    refine hnodup.imp_of_mem (fun {c d} hc hd hne ptr hptr hptr' => ?_)
    obtain ⟨r, hr, rfl⟩ := List.mem_map.mp hptr
    obtain ⟨r', hr', heq⟩ := List.mem_map.mp hptr'
    exact hne (ha.tables c hc d hd r hr r' hr' heq.symm)

/-- What a timer does whose request waits in the table. -/
theorem afIpcOnTimeout_finds {ptr : Nat} {rc : ReqControl} (base : EventBase) {r : Request}
    (hr : r ∈ rc.pendingRequests) (hptr : r.ptr = ptr) :
    ∃ req rc' base', afIpcOnTimeout ptr rc base = .ok (req, rc', base') := by
  cases hout : afIpcOnTimeout ptr rc base with
  | ok out => exact ⟨_, _, _, rfl⟩
  | error e =>
      unfold afIpcOnTimeout at hout
      split at hout
      · rename_i hnone
        rw [List.find?_eq_none] at hnone
        exact absurd (decide_eq_true hptr) (hnone r hr)
      · cases hout

end AfIpc.Ipc
