/-
  AfIpc.Ipc.MemoryRefines

  The request functions on memory do what those on the table do.  Addresses of the
  table are used once, those in memory again and again; `Represents ρ s m` says
  that `m` holds the pending requests of `s` at the addresses that `ρ` gives, in
  order, with their timers, and that nothing else is allocated.

  Each call on memory is matched by the same call on the table
  (`memoryStep_simulates`), which leaves a state that is represented again, by
  another `ρ` where a request was registered.  The table must not have requests of
  one number: a request taken out in another's place leaves a timer behind, and in
  memory that timer leads to whatever takes its record next.
-/

import AfIpc.Ipc.Memory
import AfIpc.Ipc.Timers

namespace AfIpc.Ipc

open AfIpc.Lib

-- ============================================================================
-- The functions on memory
-- ============================================================================

namespace Memory

variable {m : Memory} {l : List (Nat × RequestCell)} {ptr : Nat} {c : RequestCell} {fuel : Nat}

theorem eventFreeLive_eq {event : Nat} {base : EventBase}
    (hlive : base.events.any (fun e => e.id = event) = true) :
    eventFreeLive event base = .ok (eventFree event base) := if_pos hlive

theorem request_eq (h : Holds m.reqPool m.pendingRequests l) (hmem : (ptr, c) ∈ l) :
    m.request ptr = .ok c := by
  obtain ⟨next, hread⟩ := h.read_eq hmem
  rw [request, hread]
  rfl

/-- Dropping the event of a record. -/
theorem dropEvent_eq (h : Holds m.reqPool m.pendingRequests l) (hmem : (ptr, c) ∈ l)
    {event : Nat} (hevent : c.event = some event)
    (hlive : m.base.events.any (fun e => e.id = event) = true) :
    ∃ pool, m.dropEvent ptr = .ok { m with reqPool := pool, base := eventFree event m.base } ∧
      Holds pool m.pendingRequests
        (l.map (fun x => if x.1 = ptr then (x.1, { x.2 with event := none }) else x)) := by
  obtain ⟨pool, hset, hpool⟩ := h.setData hmem (fun r => { r with event := none })
  refine ⟨pool, ?_, hpool⟩
  simp only [dropEvent, request_eq h hmem, hevent, eventFreeLive_eq hlive, bind, Except.bind,
    setRequest, setBase, hset]
  rfl

/-- Removing a request by number. -/
theorem removeRequest_eq (h : Holds m.reqPool m.pendingRequests l) (hfuel : l.length ≤ fuel)
    (seqNum : BitVec 32) :
    ∃ head pool, m.afIpcRemoveRequest fuel seqNum =
        .ok { m with reqPool := pool, pendingRequests := head } ∧
      Holds pool head (l.eraseP (fun x => x.2.seqNum = seqNum)) := by
  obtain ⟨head, pool, hunlink, hpool⟩ :=
    @Holds.unlink_eq _ _ _ _ _ _ (fun c : RequestCell => c.seqNum = seqNum) fuel h hfuel
  refine ⟨head, pool, ?_, hpool⟩
  simp only [afIpcRemoveRequest, hunlink, bind, Except.bind]
  rfl

section Send

variable {callback : Option Callback} {context : Context} {timeoutMs : Int} {env : SendEnv}
  {lent : Lent}

/-- The number of the next request. -/
def newSeqNum (m : Memory) : BitVec 32 := (nextSeqId m.lastSeqId).setWidth 32

/-- The memory in which a new request heads the list. -/
def registered (m : Memory) (lent : Lent) (pool : Store Nat RequestCell)
    (events : List Event) : Memory :=
  { m with lastSeqId := nextSeqId m.lastSeqId, reqPool := pool, pendingRequests := some lent.slot,
           base := { m.base with events := events } }

/-- A request is linked and filled, whatever its record held. -/
theorem linkRequest_eq (h : Holds m.reqPool m.pendingRequests l)
    (hfree : m.reqPool lent.slot = none) :
    ∃ pool, m.linkRequest callback context timeoutMs lent =
        .ok (m.newSeqNum, m.registered lent pool m.base.events) ∧
      Holds pool (some lent.slot)
        ((lent.slot, ⟨m.newSeqNum, none, timeoutMs, callback, context⟩) :: l) := by
  have hlink : (m.reqPool.put lent.slot lent.left).setNext lent.slot m.pendingRequests =
      .ok (m.reqPool.put lent.slot ⟨lent.left.data, m.pendingRequests⟩) := by
    simp only [Store.setNext, Store.read, Store.put, Function.update_self, Function.update_idem,
      bind, Except.bind]
    rfl
  obtain ⟨pool, hset, hpool⟩ := (h.push hfree lent.left.data).setHead
    (fun r => { r with seqNum := m.newSeqNum })
  obtain ⟨pool', hset', hpool'⟩ := hpool.setHead (fun r =>
    { r with responseCallback := callback, responseContext := context, timeoutVal := timeoutMs,
             event := none })
  refine ⟨pool', ?_, hpool'⟩
  unfold newSeqNum at hset
  simp only [linkRequest, afIpcUtilFindUnusedRequest, hlink, afIpcUtilGenSeqId, setRequest, hset,
    hset', bind, Except.bind, pure, Except.pure]
  rfl

/-- A request that gets no timer is unlinked again. -/
theorem sendRegister_error (h : Holds m.reqPool m.pendingRequests l)
    (hfree : m.reqPool lent.slot = none) (halloc : env.alloc = true) (htimer : env.timer = false)
    (hfuel : l.length + 1 ≤ fuel) :
    ∃ head pool, m.sendRegister fuel callback context timeoutMs env lent =
        .ok (.error env.timerErrno, { m with lastSeqId := nextSeqId m.lastSeqId, reqPool := pool,
                                             pendingRequests := head }) ∧
      Holds pool head l := by
  obtain ⟨pool, hlink, hpool⟩ :=
    @linkRequest_eq m l callback context timeoutMs lent h hfree
  obtain ⟨head, pool', hremove, hpool'⟩ :=
    @removeRequest_eq (m.registered lent pool m.base.events) _ fuel hpool hfuel m.newSeqNum
  refine ⟨head, pool', ?_, ?_⟩
  · simp only [sendRegister, halloc, htimer, hlink, bind, Except.bind, if_true, hremove,
      Bool.false_eq_true, if_false]
    rfl
  · rwa [List.eraseP_cons_of_pos (by simp)] at hpool'

/-- A request that gets a timer. -/
theorem sendRegister_ok (h : Holds m.reqPool m.pendingRequests l)
    (hfree : m.reqPool lent.slot = none) (hevent : ∀ e ∈ m.base.events, e.id ≠ lent.event)
    (halloc : env.alloc = true) (htimer : env.timer = true) :
    ∃ pool, m.sendRegister fuel callback context timeoutMs env lent =
        .ok (.ok (lent.slot, m.newSeqNum), m.registered lent pool
          (⟨lent.event, .request lent.slot, true⟩ :: m.base.events)) ∧
      Holds pool (some lent.slot)
        ((lent.slot, ⟨m.newSeqNum, some lent.event, timeoutMs, callback, context⟩) :: l) := by
  obtain ⟨pool, hlink, hpool⟩ :=
    @linkRequest_eq m l callback context timeoutMs lent h hfree
  obtain ⟨pool', hset, hpool'⟩ := hpool.setHead (fun r => { r with event := some lent.event })
  have hadd : eventAdd lent.event (eventNewAt lent.event (.request lent.slot) m.base) =
      { m.base with events := ⟨lent.event, .request lent.slot, true⟩ :: m.base.events } := by
    have hrest : m.base.events.map
        (fun e => if e.id = lent.event then { e with added := true } else e) = m.base.events := by
      conv_rhs => rw [← List.map_id m.base.events]
      apply List.map_congr_left
      intro e he
      rw [if_neg (hevent e he)]
      rfl
    simp only [eventAdd, eventNewAt, List.map_cons, if_true]
    rw [hrest]
  refine ⟨pool', ?_, hpool'⟩
  simp only [sendRegister, halloc, htimer, hlink, bind, Except.bind, if_true, setRequest, setBase,
    registered, hset]
  rw [← hadd]
  rfl

/-- Unregistering the request that heads the list. -/
theorem sendUnregister_eq {pool : Store Nat RequestCell}
    (h : Holds pool (some lent.slot)
      ((lent.slot, ⟨m.newSeqNum, some lent.event, timeoutMs, callback, context⟩) :: l))
    (hevent : ∀ e ∈ m.base.events, e.id ≠ lent.event) (hfuel : l.length + 1 ≤ fuel) :
    ∃ head pool', (m.registered lent pool
        (⟨lent.event, .request lent.slot, true⟩ :: m.base.events)).sendUnregister fuel lent.slot
          m.newSeqNum =
        .ok { m with lastSeqId := nextSeqId m.lastSeqId, reqPool := pool',
                     pendingRequests := head } ∧
      Holds pool' head l := by
  have hnodup := h.path.nodup
  obtain ⟨pool₁, hdrop, hpool₁⟩ := @dropEvent_eq (m.registered lent pool
    (⟨lent.event, .request lent.slot, true⟩ :: m.base.events)) _ lent.slot _ h List.mem_cons_self
    lent.event rfl (by simp [registered])
  have hrest : l.map (fun x => if x.1 = lent.slot then (x.1, { x.2 with event := none }) else x) =
      l := by
    conv_rhs => rw [← List.map_id l]
    apply List.map_congr_left
    intro x hx
    refine if_neg (fun heq => ?_)
    exact (List.nodup_cons.mp hnodup).1 (List.mem_map.mpr ⟨x, hx, heq⟩)
  rw [List.map_cons, if_pos rfl, hrest] at hpool₁
  obtain ⟨head, pool₂, hremove, hpool₂⟩ := @removeRequest_eq
    { m.registered lent pool (⟨lent.event, .request lent.slot, true⟩ :: m.base.events) with
      reqPool := pool₁,
      base := eventFree lent.event (m.registered lent pool
        (⟨lent.event, .request lent.slot, true⟩ :: m.base.events)).base }
    _ fuel hpool₁ hfuel m.newSeqNum
  have hfree : eventFree lent.event
      { m.base with events := ⟨lent.event, .request lent.slot, true⟩ :: m.base.events } = m.base := by
    have hfilter : m.base.events.filter (fun e => e.id != lent.event) = m.base.events := by
      rw [List.filter_eq_self]
      intro e he
      simpa using hevent e he
    simp only [eventFree]
    rw [List.filter_cons_of_neg (by simp), hfilter]
  refine ⟨head, pool₂, ?_, ?_⟩
  · simp only [sendUnregister, hdrop, bind, Except.bind]
    rw [hremove]
    simp only [registered, hfree]
  · rwa [List.eraseP_cons_of_pos (by simp)] at hpool₂

end Send

end Memory

-- ============================================================================
-- The correspondence
-- ============================================================================

/-- The record of a request, with the address it has in memory. -/
def Request.cell (ρ : Nat → Nat) (r : Request) : Nat × RequestCell :=
  (ρ r.ptr, ⟨r.seqNum, r.event.map ρ, r.timeoutVal, r.responseCallback, r.responseContext⟩)

def EventArg.rename (ρ : Nat → Nat) : EventArg → EventArg
  | .server => .server
  | .client ptr => .client (ρ ptr)
  | .request ptr => .request (ρ ptr)

def Event.rename (ρ : Nat → Nat) (e : Event) : Event := ⟨ρ e.id, e.arg.rename ρ, e.added⟩

/-- The memory holds the table, at the addresses that `ρ` gives. -/
structure Represents (ρ : Nat → Nat) (s : TableState) (m : Memory) : Prop where
  lastSeqId : m.lastSeqId = s.rc.lastSeqId
  requests : Holds m.reqPool m.pendingRequests (s.rc.pendingRequests.map (Request.cell ρ))
  events : m.base.events = s.base.events.map (Event.rename ρ)
  ids : (m.base.events.map Event.id).Nodup

theorem represents_initial (ρ : Nat → Nat) (next : Nat) :
    Represents ρ (initialTable next) initialMemory where
  lastSeqId := rfl
  requests := holds_nil
  events := rfl
  ids := List.nodup_nil

section Represents

variable {ρ : Nat → Nat} {s : TableState} {m : Memory} {r : Request} {e : Event}

theorem Represents.ptrs (h : Represents ρ s m) :
    (s.rc.pendingRequests.map (fun r => ρ r.ptr)).Nodup := by
  have hnodup := h.requests.path.nodup
  rw [List.map_map] at hnodup
  exact hnodup

theorem Represents.eventIds (h : Represents ρ s m) :
    (s.base.events.map (fun e => ρ e.id)).Nodup := by
  have hnodup := h.ids
  rw [h.events, List.map_map] at hnodup
  exact hnodup

/-- An event of the table is live in memory. -/
theorem Represents.live (h : Represents ρ s m) (he : e ∈ s.base.events) :
    m.base.events.any (fun v => v.id = ρ e.id) = true := by
  rw [List.any_eq_true, h.events]
  exact ⟨e.rename ρ, List.mem_map_of_mem he, by simp [Event.rename]⟩

/-- Freeing an event in memory frees that of the table. -/
theorem Represents.eventFree (h : Represents ρ s m) (he : e ∈ s.base.events) :
    (eventFree (ρ e.id) m.base).events = (eventFree e.id s.base).events.map (Event.rename ρ) := by
  show m.base.events.filter _ = (s.base.events.filter _).map _
  rw [h.events, List.filter_map]
  congr 1
  apply List.filter_congr
  intro v hv
  have hiff : ρ v.id = ρ e.id ↔ v.id = e.id := by
    refine ⟨fun heq => ?_, fun heq => by rw [heq]⟩
    rw [List.inj_on_of_nodup_map h.eventIds hv he heq]
  simp only [Function.comp_apply, Event.rename, bne, beq_eq_decide, hiff]

/-- A timer that fires in memory fires in the table. -/
theorem Represents.timerFired (h : Represents ρ s m) (he : e ∈ s.base.events) :
    Represents ρ ⟨s.rc, timerFired e.id s.base⟩ (m.setBase (timerFired (ρ e.id) m.base)) where
  lastSeqId := h.lastSeqId
  requests := h.requests
  events := by
    show m.base.events.map _ = (s.base.events.map _).map _
    rw [h.events, List.map_map, List.map_map]
    apply List.map_congr_left
    intro v hv
    by_cases hid : v.id = e.id
    · simp [Event.rename, hid]
    · have hne : ρ v.id ≠ ρ e.id := by
        intro heq
        exact hid (congrArg Event.id (List.inj_on_of_nodup_map h.eventIds hv he heq))
      simp [Event.rename, hid, hne]
  ids := by
    have hsame : (Ipc.timerFired (ρ e.id) m.base).events.map Event.id =
        m.base.events.map Event.id := by
      show (m.base.events.map _).map _ = _
      rw [List.map_map]
      apply List.map_congr_left
      intro v _
      by_cases hid : v.id = ρ e.id
      · simp [hid]
      · simp [hid]
    show ((Ipc.timerFired (ρ e.id) m.base).events.map Event.id).Nodup
    rw [hsame]
    exact h.ids

variable {fuel : Nat}

/-- The nodes left when a request that has lost its event is removed. -/
theorem Represents.eraseP_cells (h : Represents ρ s m)
    (hseq : (s.rc.pendingRequests.map Request.seqNum).Nodup) (hr : r ∈ s.rc.pendingRequests) :
    ((s.rc.pendingRequests.map (Request.cell ρ)).map
        (fun x => if x.1 = ρ r.ptr then (x.1, { x.2 with event := none }) else x)).eraseP
      (fun x => decide (x.2.seqNum = r.seqNum)) =
    (s.rc.without r.ptr).pendingRequests.map (Request.cell ρ) := by
  have hptrs : (s.rc.pendingRequests.map Request.ptr).Nodup := by
    have hnodup : ((s.rc.pendingRequests.map Request.ptr).map ρ).Nodup := by
      rw [List.map_map]
      exact h.ptrs
    exact hnodup.of_map ρ
  have hkey : ∀ touch : Nat × RequestCell → Nat × RequestCell,
      (∀ x, (touch x).2.seqNum = x.2.seqNum) →
      (fun x : Nat × RequestCell => decide (x.2.seqNum = r.seqNum)) ∘ (touch ∘ Request.cell ρ) =
        fun r' : Request => decide (r'.seqNum = r.seqNum) := by
    intro touch htouch
    funext r'
    simp only [Function.comp_apply, htouch, Request.cell]
  rw [List.map_map, List.eraseP_map, hkey, eraseP_key hseq, filter_key hseq hptrs hr]
  · apply List.map_congr_left
    intro r' hr'
    -- every node but that of the request is as it was
    have hmem := List.mem_filter.mp hr'
    refine if_neg (fun heq => ?_)
    rw [List.inj_on_of_nodup_map h.ptrs hmem.1 hr heq] at hmem
    simp at hmem
  · intro x
    by_cases hx : x.1 = ρ r.ptr
    · simp only [if_pos hx]
    · simp only [if_neg hx]

/-- **A request is taken out** of the table and its event freed. -/
theorem Represents.take (h : Represents ρ s m)
    (hseq : (s.rc.pendingRequests.map Request.seqNum).Nodup) (hr : r ∈ s.rc.pendingRequests)
    (he : e ∈ s.base.events) (hev : r.event = some e.id)
    (hfuel : s.rc.pendingRequests.length ≤ fuel) :
    ∃ m₁ m₂, m.dropEvent (ρ r.ptr) = .ok m₁ ∧
      m₁.request (ρ r.ptr) = .ok { (r.cell ρ).2 with event := none } ∧
      m₁.afIpcRemoveRequest fuel r.seqNum = .ok m₂ ∧ m₂.heard = m.heard ∧
      Represents ρ ⟨s.rc.without r.ptr, eventFreeIf r.event s.base⟩ m₂ := by
  have hmem : (ρ r.ptr, (r.cell ρ).2) ∈ s.rc.pendingRequests.map (Request.cell ρ) :=
    List.mem_map_of_mem hr
  have hevent : (r.cell ρ).2.event = some (ρ e.id) := by
    show r.event.map ρ = some (ρ e.id)
    rw [hev]
    rfl
  obtain ⟨pool, hdrop, hpool⟩ := Memory.dropEvent_eq h.requests hmem hevent (h.live he)
  have hlength : ((s.rc.pendingRequests.map (Request.cell ρ)).map
      (fun x => if x.1 = ρ r.ptr then (x.1, { x.2 with event := none }) else x)).length ≤ fuel := by
    rwa [List.length_map, List.length_map]
  obtain ⟨head, pool', hremove, hpool'⟩ := @Memory.removeRequest_eq
    { m with reqPool := pool, base := Ipc.eventFree (ρ e.id) m.base } _ fuel hpool hlength r.seqNum
  refine ⟨_, _, hdrop, Memory.request_eq hpool ?_, hremove, rfl, h.lastSeqId, ?_, ?_, ?_⟩
  · exact List.mem_map.mpr ⟨_, hmem, if_pos rfl⟩
  · rw [← h.eraseP_cells hseq hr]
    exact hpool'
  · rw [hev]
    exact h.eventFree he
  · exact h.ids.sublist (List.filter_sublist.map _)

/-- The correspondence with a new request and its event. -/
def extend (ρ : Nat → Nat) (next slot event : Nat) : Nat → Nat :=
  Function.update (Function.update ρ next slot) (next + 1) event

theorem extend_of_lt {next n : Nat} (hn : n < next) (slot event : Nat) :
    extend ρ next slot event n = ρ n := by
  rw [extend, Function.update_of_ne (by omega), Function.update_of_ne (by omega)]

theorem extend_slot (next slot event : Nat) : extend ρ next slot event next = slot := by
  rw [extend, Function.update_of_ne (by omega), Function.update_self]

theorem extend_event (next slot event : Nat) : extend ρ next slot event (next + 1) = event :=
  Function.update_self ..

theorem Represents.newSeqNum (h : Represents ρ s m) : m.newSeqNum = newSeqNum s.rc := by
  rw [Memory.newSeqNum, Ipc.newSeqNum, h.lastSeqId]

section Register

variable {lent : Lent} {callback : Option Callback} {context : Context} {timeoutMs : Int}
  {env : SendEnv} {pool : Store Nat RequestCell}

/-- **A request is registered**: the correspondence is extended at the addresses it
    has in the table. -/
theorem Represents.register (h : Represents ρ s m) (ht : TableInv s)
    (hpool : Holds pool (some lent.slot)
      ((lent.slot, ⟨m.newSeqNum, some lent.event, timeoutMs, callback, context⟩) ::
        s.rc.pendingRequests.map (Request.cell ρ)))
    (hevent : ∀ e ∈ m.base.events, e.id ≠ lent.event) :
    Represents (extend ρ s.base.next lent.slot lent.event)
      ⟨registerIn s.rc s.base callback context timeoutMs, armTimer s.base⟩
      (m.registered lent pool (⟨lent.event, .request lent.slot, true⟩ :: m.base.events)) where
  lastSeqId := congrArg nextSeqId h.lastSeqId
  requests := by
    have hnew : (newRequest s.rc s.base callback context timeoutMs).cell
        (extend ρ s.base.next lent.slot lent.event) =
        (lent.slot, ⟨m.newSeqNum, some lent.event, timeoutMs, callback, context⟩) := by
      simp only [newRequest, Request.cell, extend_slot, extend_event, Option.map_some, h.newSeqNum]
    have hold : s.rc.pendingRequests.map
        (Request.cell (extend ρ s.base.next lent.slot lent.event)) =
        s.rc.pendingRequests.map (Request.cell ρ) := by
      apply List.map_congr_left
      intro r hr
      obtain ⟨-, e, he, htimer⟩ := ht.timers.armed r hr
      simp only [Request.cell, he, Option.map_some,
        extend_of_lt (ht.timers.fresh.requests r hr), extend_of_lt (ht.timers.fresh.events _ htimer)]
    show Holds pool (some lent.slot) (List.map _ (_ :: _))
    rw [List.map_cons, hnew, hold]
    exact hpool
  events := by
    have hnew : Event.rename (extend ρ s.base.next lent.slot lent.event)
        ⟨s.base.next + 1, .request s.base.next, true⟩ =
        ⟨lent.event, .request lent.slot, true⟩ := by
      simp only [Event.rename, EventArg.rename, extend_slot, extend_event]
    have hold : s.base.events.map (Event.rename (extend ρ s.base.next lent.slot lent.event)) =
        s.base.events.map (Event.rename ρ) := by
      apply List.map_congr_left
      intro e he
      obtain ⟨r, hr, -, harg⟩ := ht.timers.owned e he
      simp only [Event.rename, EventArg.rename, harg, extend_of_lt (ht.timers.fresh.requests r hr),
        extend_of_lt (ht.timers.fresh.events e he)]
    show _ :: m.base.events = List.map _ (_ :: _)
    rw [List.map_cons, hnew, hold, h.events]
  ids := by
    refine List.nodup_cons.mpr ⟨fun hin => ?_, h.ids⟩
    obtain ⟨e, he, heq⟩ := List.mem_map.mp hin
    exact hevent e he heq

/-- A request that came to nothing has used up a sequence id. -/
theorem Represents.abandon (h : Represents ρ s m) {head : Option Nat}
    (hpool : Holds pool head (s.rc.pendingRequests.map (Request.cell ρ))) (next : Nat) :
    Represents ρ ⟨{ s.rc with lastSeqId := nextSeqId s.rc.lastSeqId }, { s.base with next := next }⟩
      { m with lastSeqId := nextSeqId m.lastSeqId, reqPool := pool, pendingRequests := head } where
  lastSeqId := congrArg nextSeqId h.lastSeqId
  requests := hpool
  events := h.events
  ids := h.ids

/-- **`af_ipc_send`** on memory does what it does on the table. -/
theorem Represents.send (h : Represents ρ s m) (ht : TableInv s)
    (hfree : m.reqPool lent.slot = none) (hevent : ∀ e ∈ m.base.events, e.id ≠ lent.event)
    (hfuel : s.rc.pendingRequests.length + 1 ≤ fuel) (txBuffer : List Byte) (txBufferSize : Int)
    {r : SendResult} (hsend : afIpcSend (some s.rc) s.base 0 txBuffer txBufferSize callback context
      timeoutMs env = r) :
    ∃ ρ' m', m.afIpcSend fuel 0 txBuffer txBufferSize callback context timeoutMs env lent =
        .ok (.sent r.ret r.errno r.packet, m') ∧
      m'.heard = m.heard ∧ Represents ρ' ⟨r.rc.getD s.rc, r.base⟩ m' := by
  subst hsend
  have hlength : (s.rc.pendingRequests.map (Request.cell ρ)).length + 1 ≤ fuel := by
    rwa [List.length_map]
  unfold afIpcSend Memory.afIpcSend
  by_cases hover : oversize txBufferSize = true
  · rw [if_pos hover, if_pos hover]
    exact ⟨ρ, m, rfl, rfl, h⟩
  rw [if_neg hover, if_neg hover]
  by_cases htimeout : timeoutMs > 0
  · rw [if_pos htimeout, if_pos htimeout]
    cases halloc : env.alloc with
    | false =>
        refine ⟨ρ, m, ?_, rfl, ?_⟩
        · simp only [Memory.sendRegister, sendRegister, halloc]
          rfl
        · simp only [sendRegister, halloc]
          exact h
    | true =>
        cases htimer : env.timer with
        | false =>
            obtain ⟨head, pool, hout, hpool⟩ := @Memory.sendRegister_error m _ fuel callback context
              timeoutMs env lent h.requests hfree halloc htimer hlength
            simp only [sendRegister_error halloc htimer, hout]
            exact ⟨ρ, _, rfl, rfl, h.abandon hpool (s.base.next + 1)⟩
        | true =>
            obtain ⟨pool, hout, hpool⟩ := @Memory.sendRegister_ok m _ fuel callback context
              timeoutMs env lent h.requests hfree hevent halloc htimer
            simp only [sendRegister_ok halloc htimer ht.timers.fresh, hout, h.newSeqNum]
            by_cases hmsg : env.sendmsg = true
            · simp only [hmsg]
              exact ⟨_, _, rfl, rfl, h.register ht hpool hevent⟩
            · obtain ⟨head, pool', hundo, hpool'⟩ := Memory.sendUnregister_eq hpool hevent hlength
              rw [h.newSeqNum] at hundo
              simp only [hmsg, sendUnregister_registerIn ht.timers.fresh]
              refine ⟨ρ, _, ?_, ?_, h.abandon hpool' (s.base.next + 2)⟩
              · simp only [bind, Except.bind, hundo]
                rfl
              · rfl
  · rw [if_neg htimeout, if_neg htimeout]
    by_cases hmsg : env.sendmsg = true
    · simp only [hmsg]
      exact ⟨ρ, m, rfl, rfl, h⟩
    · simp only [hmsg]
      exact ⟨ρ, m, rfl, rfl, h⟩

end Register

end Represents

-- ============================================================================
-- Steps
-- ============================================================================

/-- The calls are the same.  Which timer of the table fires is seen from what is
    heard, since its address is another. -/
inductive SameCall : MemoryOp → TableOp → Prop
  | send (txBuffer : List Byte) (txBufferSize : Int) (callback : Option Callback)
      (context : Context) (timeoutMs : Int) (env : SendEnv) (lent : Lent) :
      SameCall (.send txBuffer txBufferSize callback context timeoutMs env lent)
        (.send txBuffer txBufferSize callback context timeoutMs env)
  | response (seqNum : BitVec 32) : SameCall (.response seqNum) (.response seqNum)
  | timeout (event event' : Nat) : SameCall (.timeout event) (.timeout event')

/-- What a call on memory does, next to the same call on the table. -/
structure Matched (fuel : Nat) (s : TableState) (m : Memory) (op : MemoryOp) (call : TableOp)
    (ρ' : Nat → Nat) (s' : TableState) (m' : Memory) : Prop where
  step : memoryStep fuel m op = .ok m'
  same : SameCall op call
  table : tableStep s call = .ok s'
  heard : m'.heard = m.heard ++ [tableHears s call]
  represents : Represents ρ' s' m'

theorem timerOf_eq {base : EventBase} (hids : (base.events.map Event.id).Nodup) {event ptr : Nat}
    (hmem : ⟨event, .request ptr, true⟩ ∈ base.events) : base.timerOf event = some ptr := by
  have hfind := find?_key hids hmem
  simp only [EventBase.timerOf, hfind]

theorem timerOf_none {base : EventBase} {event : Nat} (h : ∀ e ∈ base.events, e.id ≠ event) :
    base.timerOf event = none := by
  have hfind : base.events.find? (fun e => e.id = event) = none := by
    rw [List.find?_eq_none]
    intro e he
    simpa using h e he
  simp only [EventBase.timerOf, hfind]

section Step

variable {ρ : Nat → Nat} {s : TableState} {m : Memory} {fuel : Nat}

theorem Represents.hear (h : Represents ρ s m) (heard : Heard) : Represents ρ s (m.hear heard) :=
  ⟨h.lastSeqId, h.requests, h.events, h.ids⟩

theorem response_simulates (h : Represents ρ s m) (ht : TableInv s)
    (hfuel : s.rc.pendingRequests.length + 1 ≤ fuel) (seqNum : BitVec 32) :
    ∃ ρ' s' m', Matched fuel s m (.response seqNum) (.response seqNum) ρ' s' m' := by
  have hlength : (s.rc.pendingRequests.map (Request.cell ρ)).length ≤ fuel := by
    rw [List.length_map]
    omega
  have hfind := @Path.find_eq _ _ m.reqPool m.pendingRequests _
    (fun c : RequestCell => c.seqNum = seqNum) fuel _ h.requests.path hlength
  have hkey : (fun x : Nat × RequestCell => decide (x.2.seqNum = seqNum)) ∘ Request.cell ρ =
      fun r : Request => decide (r.seqNum = seqNum) := rfl
  rw [List.find?_map, hkey] at hfind
  by_cases hin : ∃ r ∈ s.rc.pendingRequests, r.seqNum = seqNum
  · obtain ⟨r, hr, rfl⟩ := hin
    obtain ⟨hpos, e, hev, htimer⟩ := ht.timers.armed r hr
    have htake := @takeResponse_eq s.rc s.base r ht.unique.nodup ht.timers.ptrs hr hpos
    obtain ⟨m₁, m₂, hdrop, hreq, hremove, hheard, hrep⟩ :=
      h.take ht.unique.nodup hr htimer hev (Nat.le_of_succ_le hfuel)
    have hread := Memory.request_eq h.requests (List.mem_map_of_mem hr)
    rw [find?_key ht.unique.nodup hr] at hfind
    have hstep : m.takeResponse fuel r.seqNum = .ok (some r.addressee, m₂) := by
      simp only [Memory.takeResponse, hfind, Option.map_some, bind, Except.bind]
      rw [show (Request.cell ρ r).1 = ρ r.ptr from rfl]
      simp only [hread, hdrop, hreq, hremove]
      exact if_pos hpos
    refine ⟨ρ, ⟨s.rc.without r.ptr, eventFreeIf r.event s.base⟩, m₂.hear (.answered (some r.addressee)),
      ?_, .response _, ?_, ?_, hrep.hear _⟩
    · simp only [memoryStep, hstep, bind, Except.bind]
      rfl
    · simp only [tableStep, htake]
    · simp only [Memory.hear, hheard, tableHears, htake, Option.map_some]
  · have hno : ∀ r ∈ s.rc.pendingRequests, r.seqNum ≠ seqNum := fun r hr heq => hin ⟨r, hr, heq⟩
    have htake := @takeResponse_none s.rc s.base seqNum hno
    have hnone : s.rc.pendingRequests.find? (fun r => decide (r.seqNum = seqNum)) = none := by
      rw [List.find?_eq_none]
      intro r hr
      simpa using hno r hr
    rw [hnone] at hfind
    have hstep : m.takeResponse fuel seqNum = .ok (none, m) := by
      simp only [Memory.takeResponse, hfind, Option.map_none, bind, Except.bind]
      rfl
    refine ⟨ρ, s, m.hear (.answered none), ?_, .response _, ?_, ?_, h.hear _⟩
    · simp only [memoryStep, hstep, bind, Except.bind]
      rfl
    · simp only [tableStep, htake]
    · simp only [Memory.hear, tableHears, htake, Option.map_none]

theorem timeout_simulates (h : Represents ρ s m) (ht : TableInv s)
    (hfuel : s.rc.pendingRequests.length + 1 ≤ fuel) (event : Nat) :
    ∃ event' ρ' s' m', Matched fuel s m (.timeout event) (.timeout event') ρ' s' m' := by
  by_cases hlive : ∃ e ∈ s.base.events, ρ e.id = event
  · obtain ⟨e, he, rfl⟩ := hlive
    obtain ⟨r, hr, hev, -⟩ := ht.timers.owned e he
    obtain ⟨-, id, hid, htimer⟩ := ht.timers.armed r hr
    obtain rfl : e.id = id := Option.some.inj (hev.symm.trans hid)
    have htable : s.base.timerOf e.id = some r.ptr := timerOf_eq ht.timers.events htimer
    have hmemory : m.base.timerOf (ρ e.id) = some (ρ r.ptr) := by
      refine timerOf_eq h.ids ?_
      rw [h.events]
      exact List.mem_map.mpr ⟨_, htimer, rfl⟩
    have hfired := h.timerFired he
    have hmem : (⟨e.id, .request r.ptr, false⟩ : Event) ∈ (timerFired e.id s.base).events :=
      List.mem_map.mpr ⟨_, htimer, if_pos rfl⟩
    obtain ⟨m₁, m₂, hdrop, -, hremove, hheard, hrep⟩ :=
      hfired.take ht.unique.nodup hr hmem hev (Nat.le_of_succ_le hfuel)
    have hread := Memory.request_eq hfired.requests (List.mem_map_of_mem hr)
    have hout := @afIpcOnTimeout_eq s.rc (timerFired e.id s.base) r ht.unique.nodup ht.timers.ptrs hr
    have hstep : (m.setBase (timerFired (ρ e.id) m.base)).afIpcOnTimeout fuel (ρ r.ptr) =
        .ok (r.addressee, m₂) := by
      simp only [Memory.afIpcOnTimeout, hread, hdrop, bind, Except.bind]
      rw [hremove]
      rfl
    refine ⟨e.id, ρ, _, m₂.hear (.timedOut (some r.addressee)), ?_, .timeout _ _, ?_, ?_,
      hrep.hear _⟩
    · simp only [memoryStep, hmemory, hstep, bind, Except.bind]
      rfl
    · simp only [tableStep, htable, hout, bind, Except.bind]
      rfl
    · simp only [Memory.hear, hheard, tableHears, htable, hout]
      rfl
  · have hmemory : m.base.timerOf event = none := by
      refine timerOf_none (fun v hv => ?_)
      rw [h.events] at hv
      obtain ⟨e, he, rfl⟩ := List.mem_map.mp hv
      exact fun heq => hlive ⟨e, he, heq⟩
    -- in the table a timer that is not there
    have htable : s.base.timerOf s.base.next = none :=
      timerOf_none (fun e he => Nat.ne_of_lt (ht.timers.fresh.events e he))
    refine ⟨s.base.next, ρ, s, m.hear (.timedOut none), ?_, .timeout _ _, ?_, ?_, h.hear _⟩
    · simp only [memoryStep, hmemory]
      rfl
    · simp only [tableStep, htable]
    · simp only [Memory.hear, tableHears, htable]

/-- **One call** on memory is matched by the same call on the table. -/
theorem memoryStep_simulates (h : Represents ρ s m) (ht : TableInv s)
    (hfuel : s.rc.pendingRequests.length + 1 ≤ fuel) {op : MemoryOp} (hlends : Lends m op) :
    ∃ call ρ' s' m', Matched fuel s m op call ρ' s' m' := by
  cases op with
  | send txBuffer txBufferSize callback context timeoutMs env lent =>
      obtain ⟨hfree, hevent⟩ := hlends
      generalize hsend : afIpcSend (some s.rc) s.base 0 txBuffer txBufferSize callback context
        timeoutMs env = r
      obtain ⟨ρ', m', hstep, hheard, hrep⟩ :=
        h.send ht hfree hevent hfuel txBuffer txBufferSize hsend
      refine ⟨_, ρ', ⟨r.rc.getD s.rc, r.base⟩, m'.hear (.sent r.ret r.errno r.packet), ?_, .send ..,
        ?_, ?_, hrep.hear _⟩
      · simp only [memoryStep, hstep, bind, Except.bind]
        rfl
      · simp only [tableStep, hsend]
      · simp only [Memory.hear, hheard, tableHears, hsend]
  | response seqNum => exact ⟨_, response_simulates h ht hfuel seqNum⟩
  | timeout event =>
      obtain ⟨event', hmatched⟩ := timeout_simulates h ht hfuel event
      exact ⟨_, hmatched⟩

end Step

-- ============================================================================
-- Runs
-- ============================================================================

/-- The call gets a record from the pool. -/
def MemoryOp.registers : MemoryOp → Bool
  | .send _ txBufferSize _ _ timeoutMs env _ =>
    !oversize txBufferSize && decide (0 < timeoutMs) && env.alloc
  | .response _ => false
  | .timeout _ => false

theorem SameCall.registers {op : MemoryOp} {call : TableOp} (h : SameCall op call) :
    call.registers = op.registers := by
  cases h with
  | send => rfl
  | response => rfl
  | timeout => rfl

/-- There are no more requests than numbers given out. -/
theorem CountInv.length_le {n : Nat} {s : TableState} (h : CountInv n s) :
    s.rc.pendingRequests.length ≤ n := by
  have hnodup : (s.rc.pendingRequests.map (fun r => r.seqNum.toNat)).Nodup := by
    have hmap := h.table.unique.nodup.map (fun a b heq => BitVec.eq_of_toNat_eq heq)
    rwa [List.map_map] at hmap
  have hsub : s.rc.pendingRequests.map (fun r => r.seqNum.toNat) ⊆ List.range' 1 n := by
    intro k hk
    obtain ⟨r, hr, rfl⟩ := List.mem_map.mp hk
    have hpos := (h.table.unique.range r hr).1
    have hle := h.below r hr
    rw [List.mem_range'_1]
    omega
  have hlength := (List.subperm_of_subset hnodup hsub).length_le
  rwa [List.length_map, List.length_range'] at hlength

/-- **A run** on memory is matched by the same calls on the table. -/
theorem memory_run_from {fuel n : Nat} {ρ : Nat → Nat} {s : TableState} {m : Memory}
    (hc : CountInv n s) (h : Represents ρ s m) (ops : List MemoryOp)
    (hn : n + ops.countP MemoryOp.registers < 2 ^ 15)
    (hfuel : n + ops.countP MemoryOp.registers < fuel)
    (hlends : Conforms (memoryStep fuel) Lends m ops) :
    ∃ calls ρ' s' m', run (memoryStep fuel) m ops = .ok m' ∧ List.Forall₂ SameCall ops calls ∧
      run tableStep s calls = .ok s' ∧ m'.heard = m.heard ++ heardIn s calls ∧
      Represents ρ' s' m' ∧ CountInv (n + ops.countP MemoryOp.registers) s' := by
  induction ops generalizing n ρ s m with
  | nil => exact ⟨[], ρ, s, m, rfl, .nil, rfl, (List.append_nil _).symm, h, hc⟩
  | cons op ops ih =>
      rw [List.countP_cons] at hn hfuel
      have hlength := hc.length_le
      obtain ⟨call, ρ₁, s₁, m₁, hstep, hsame, htable, hheard, hrep⟩ :=
        memoryStep_simulates h hc.table (show _ + 1 ≤ fuel by omega) hlends.1
      have hcount : call.count = if op.registers then 1 else 0 := by
        rw [TableOp.count, hsame.registers]
      obtain ⟨s₁', htable', hc₁⟩ := tableStep_count hc call (by omega)
      obtain rfl : s₁ = s₁' := Except.ok.inj (htable.symm.trans htable')
      rw [hcount] at hc₁
      obtain ⟨calls, ρ₂, s₂, m₂, hrun, hsames, htables, hheards, hrep₂, hc₂⟩ :=
        ih hc₁ hrep (by omega) (by omega) (hlends.2 m₁ hstep)
      refine ⟨call :: calls, ρ₂, s₂, m₂, ?_, .cons hsame hsames, ?_, ?_, hrep₂, ?_⟩
      · rw [run_cons, hstep]
        exact hrun
      · rw [run_cons, htable]
        exact htables
      · rw [hheards, hheard, List.append_assoc]
        simp only [heardIn, htable]
        rfl
      · rw [List.countP_cons, Nat.add_comm (ops.countP _), ← Nat.add_assoc]
        exact hc₂

/-- Visiting records that have a live event each frees those events. -/
theorem foldlM_shutdownRequest (cells : List RequestCell) (base : EventBase)
    (hnodup : (cells.map RequestCell.event).Nodup)
    (hlive : ∀ c ∈ cells, ∃ e ∈ base.events, c.event = some e.id) :
    ∃ base', cells.foldlM (fun base c => Prod.snd <$> Memory.shutdownRequest c base) base =
        .ok base' ∧
      ∀ e ∈ base'.events, e ∈ base.events ∧ ∀ c ∈ cells, c.event ≠ some e.id := by
  induction cells generalizing base with
  | nil => exact ⟨base, rfl, fun e he => ⟨he, fun c hc => absurd hc List.not_mem_nil⟩⟩
  | cons c cells ih =>
      rw [List.map_cons, List.nodup_cons] at hnodup
      obtain ⟨e, he, hev⟩ := hlive c List.mem_cons_self
      have hany : base.events.any (fun v => v.id = e.id) = true := by
        rw [List.any_eq_true]
        exact ⟨e, he, by simp⟩
      have hone : Prod.snd <$> Memory.shutdownRequest c base = .ok (eventFree e.id base) := by
        simp only [Memory.shutdownRequest, hev, Memory.eventFreeLive_eq hany, bind, Except.bind]
        rfl
      have hrest : ∀ d ∈ cells, ∃ v ∈ (eventFree e.id base).events, d.event = some v.id := by
        intro d hd
        obtain ⟨v, hv, hdv⟩ := hlive d (List.mem_cons_of_mem c hd)
        refine ⟨v, List.mem_filter.mpr ⟨hv, ?_⟩, hdv⟩
        -- no two records have one event
        have hne : v.id ≠ e.id := by
          intro heq
          refine hnodup.1 (List.mem_map.mpr ⟨d, hd, ?_⟩)
          rw [hdv, heq, hev]
        simpa using hne
      obtain ⟨base', hfold, hbase'⟩ := ih (eventFree e.id base) hnodup.2 hrest
      refine ⟨base', ?_, fun v hv => ?_⟩
      · rw [List.foldlM_cons, hone]
        exact hfold
      · obtain ⟨hin, hothers⟩ := hbase' v hv
        obtain ⟨hmem, hne⟩ := List.mem_filter.mp hin
        refine ⟨hmem, fun d hd => ?_⟩
        rcases List.mem_cons.mp hd with rfl | hd
        · rw [hev]
          intro heq
          rw [Option.some.injEq] at heq
          simp [heq] at hne
        · exact hothers d hd

/-- **Shutting down** frees every timer and every record. -/
theorem Represents.shutdown {ρ : Nat → Nat} {s : TableState} {m : Memory} {fuel : Nat}
    (h : Represents ρ s m) (ht : TableInv s) (hfuel : s.rc.pendingRequests.length ≤ fuel) :
    ∃ m', m.afIpcUtilShutdownRequests fuel = .ok m' ∧ m'.base.events = [] ∧
      ∀ ptr, m'.reqPool ptr = none := by
  have hcells : (s.rc.pendingRequests.map (Request.cell ρ)).map Prod.snd =
      s.rc.pendingRequests.map (fun r => (r.cell ρ).2) := by
    rw [List.map_map]
    rfl
  have hlive : ∀ c ∈ (s.rc.pendingRequests.map (Request.cell ρ)).map Prod.snd,
      ∃ e ∈ m.base.events, c.event = some e.id := by
    intro c hc
    rw [hcells] at hc
    obtain ⟨r, hr, rfl⟩ := List.mem_map.mp hc
    obtain ⟨-, e, hev, htimer⟩ := ht.timers.armed r hr
    rw [h.events]
    refine ⟨_, List.mem_map_of_mem htimer, ?_⟩
    show r.event.map ρ = some (ρ e)
    rw [hev]
    rfl
  have hnodup : (((s.rc.pendingRequests.map (Request.cell ρ)).map Prod.snd).map
      RequestCell.event).Nodup := by
    rw [hcells, List.map_map]
    refine List.Nodup.map_on ?_ (ht.timers.ptrs.of_map _)
    intro r hr r' hr' heq
    obtain ⟨-, e, hev, htimer⟩ := ht.timers.armed r hr
    obtain ⟨-, e', hev', htimer'⟩ := ht.timers.armed r' hr'
    have hid : ρ e = ρ e' := by
      simpa [Request.cell, hev, hev'] using heq
    have hsame := List.inj_on_of_nodup_map h.eventIds htimer htimer' hid
    rw [Event.mk.injEq, EventArg.request.injEq] at hsame
    exact List.inj_on_of_nodup_map ht.timers.ptrs hr hr' hsame.2.1
  obtain ⟨base', hfold, hbase'⟩ := foldlM_shutdownRequest _ m.base hnodup hlive
  obtain ⟨pool, hvisit⟩ := @Path.visit_eq _ _ _ _ _ _ fuel _ Memory.shutdownRequest _ _
    h.requests.path (by rwa [List.length_map]) hfold
  refine ⟨{ m with reqPool := fun _ => none, pendingRequests := none, mutexCreated := false,
                   base := base' }, ?_, ?_, fun _ => rfl⟩
  · simp only [Memory.afIpcUtilShutdownRequests, hvisit, bind, Except.bind]
    rfl
  · rw [List.eq_nil_iff_forall_not_mem]
    intro v hv
    obtain ⟨hmem, hnone⟩ := hbase' v hv
    rw [h.events] at hmem
    obtain ⟨e, he, rfl⟩ := List.mem_map.mp hmem
    obtain ⟨r, hr, hev, -⟩ := ht.timers.owned e he
    refine hnone (r.cell ρ).2 ?_ ?_
    · rw [hcells]
      exact List.mem_map_of_mem hr
    · show r.event.map ρ = some (ρ e.id)
      rw [hev]
      rfl

/-- **The request table in memory is the request table.**  Take any run of sends,
    responses and timeouts that registers at most 32767 requests, in which the pool
    gives out records that are free, with anything in them, and libevent addresses
    where no event is live.  No record is read or written that is not allocated, no
    event is freed twice, and every loop ends; the run gives the answers, sends the
    packets and calls the callbacks of the same run on the table; the list in memory
    is that of the pending requests, and no other record is allocated; shutting down
    then frees every event and every record. -/
theorem memory_matches_table (fuel : Nat) (ops : List MemoryOp)
    (hbound : ops.countP MemoryOp.registers ≤ 32767)
    (hfuel : ops.countP MemoryOp.registers < fuel)
    (hlends : Conforms (memoryStep fuel) Lends initialMemory ops) :
    ∃ calls ρ s m m', run (memoryStep fuel) initialMemory ops = .ok m ∧
      List.Forall₂ SameCall ops calls ∧ run tableStep (initialTable 0) calls = .ok s ∧
      m.heard = heardIn (initialTable 0) calls ∧ Represents ρ s m ∧
      m.afIpcUtilShutdownRequests fuel = .ok m' ∧ m'.base.events = [] ∧
      ∀ ptr, m'.reqPool ptr = none := by
  obtain ⟨calls, ρ, s, m, hrun, hsame, htable, hheard, hrep, hc⟩ :=
    memory_run_from (countInv_initial 0) (represents_initial id 0) ops (by omega) (by omega) hlends
  have hlength := hc.length_le
  obtain ⟨m', hshut, hevents, hpool⟩ :=
    hrep.shutdown hc.table (show s.rc.pendingRequests.length ≤ fuel by omega)
  refine ⟨calls, ρ, s, m, m', hrun, hsame, htable, ?_, hrep, hshut, hevents, hpool⟩
  rw [hheard]
  rfl

/-- A record full of another request's data, and the addresses of a record and an
    event. -/
def usedRecord : Lent := ⟨7, ⟨⟨1, some 3, 1000, some 5, 9⟩, some 7⟩, 3⟩

/-- A request that is answered, one at the same addresses that times out, and one
    there that waits. -/
def sameRecordTwice : List MemoryOp :=
  [.send [0] 1 (some 0) 0 1000 .good usedRecord, .response 1,
   .send [0] 1 (some 0) 0 1000 .good usedRecord, .timeout 3,
   .send [0] 1 (some 0) 0 1000 .good usedRecord]

theorem memory_matches_table_reused :
    ∃ calls ρ s m m', run (memoryStep 4) initialMemory sameRecordTwice = .ok m ∧
      List.Forall₂ SameCall sameRecordTwice calls ∧
      run tableStep (initialTable 0) calls = .ok s ∧
      m.heard = heardIn (initialTable 0) calls ∧ Represents ρ s m ∧
      m.afIpcUtilShutdownRequests 4 = .ok m' ∧ m'.base.events = [] ∧
      ∀ ptr, m'.reqPool ptr = none := by
  refine memory_matches_table 4 sameRecordTwice (by decide) (by decide) ?_
  refine ⟨⟨rfl, nofun⟩, fun m₁ h₁ => ?_⟩
  obtain rfl := Except.ok.inj (show Except.ok _ = Except.ok m₁ from h₁)
  refine ⟨trivial, fun m₂ h₂ => ?_⟩
  obtain rfl := Except.ok.inj (show Except.ok _ = Except.ok m₂ from h₂)
  refine ⟨⟨rfl, nofun⟩, fun m₃ h₃ => ?_⟩
  obtain rfl := Except.ok.inj (show Except.ok _ = Except.ok m₃ from h₃)
  refine ⟨trivial, fun m₄ h₄ => ?_⟩
  obtain rfl := Except.ok.inj (show Except.ok _ = Except.ok m₄ from h₄)
  exact ⟨⟨rfl, nofun⟩, fun _ _ => trivial⟩

end AfIpc.Ipc
