/-
  AfIpc.Ipc.Apart

  The tables of one endpoint share an event base, and requests find their timers
  there by address.  `Apart` says that they do not meet: no request is in two
  tables, and the event that a request holds, as long as it lives, is a timer made
  for that request.  Unlike the correlation of requests with their responses this
  needs no bound on how many requests are made.
-/

import AfIpc.Ipc.Correlation

namespace AfIpc.Ipc

open AfIpc.Lib

structure Apart (h : Endpoint) : Prop where
  /-- A request is in one table only. -/
  tables : ∀ c ∈ h.conns, ∀ d ∈ h.conns, ∀ r ∈ c.table.pendingRequests,
    ∀ r' ∈ d.table.pendingRequests, r.ptr = r'.ptr → c.ptr = d.ptr
  /-- The event of a request is its own timer. -/
  timers : h.base.All (fun id arg => ∀ c ∈ h.conns, ∀ r ∈ c.table.pendingRequests,
    r.event = some id → arg = .request r.ptr)
  below : ∀ c ∈ h.conns, ∀ r ∈ c.table.pendingRequests, ∀ id, r.event = some id →
    id < h.base.next

/-- What becomes of the requests of a table: some go, and some lose their event. -/
def Settles (rc rc' : ReqControl) : Prop :=
  ∀ r ∈ rc'.pendingRequests, ∃ r' ∈ rc.pendingRequests, r'.ptr = r.ptr ∧
    (r.event = none ∨ r.event = r'.event)

theorem settles_takeResponse {seqNum : BitVec 32} {rc rc' : ReqControl} {base base' : EventBase}
    {found : Option Request} (h : takeResponse seqNum rc base = (found, rc', base')) :
    Settles rc rc' :=
  fun r hr => ⟨r, (takeResponse_sub h).2 r hr, rfl, Or.inr rfl⟩

theorem settles_onTimeout {ptr : Nat} {rc rc' : ReqControl} {base base' : EventBase}
    {req : Request} (h : afIpcOnTimeout ptr rc base = .ok (req, rc', base')) : Settles rc rc' := by
  obtain ⟨-, rfl, -⟩ := afIpcOnTimeout_found h
  intro r hr
  obtain ⟨r', hr', rfl⟩ := List.mem_map.mp (List.mem_of_mem_eraseP hr)
  refine ⟨r', hr', ?_⟩
  split_ifs
  · exact ⟨rfl, Or.inl rfl⟩
  · exact ⟨rfl, Or.inr rfl⟩

section Apart

variable {h : Endpoint} {c : Conn}

theorem Apart.note (ha : Apart h) (calls : List Call) : Apart (h.note calls) :=
  ⟨ha.tables, ha.timers, ha.below⟩

/-- An event base that keeps no other events. -/
theorem Apart.setBase (ha : Apart h) {base : EventBase} (hnext : h.base.next ≤ base.next)
    (hbase : ∀ P : Nat → EventArg → Prop, h.base.All P → base.All P) : Apart (h.setBase base) where
  tables := ha.tables
  timers := hbase _ ha.timers
  below := fun d hd r hr id hid => Nat.lt_of_lt_of_le (ha.below d hd r hr id hid) hnext

/-- Fewer connections. -/
theorem Apart.without (ha : Apart h) (ptr : Nat) : Apart (h.without ptr) where
  tables := fun d hd e he => ha.tables d (mem_without.mp hd).1 e (mem_without.mp he).1
  timers := ha.timers.mono (fun _ _ hp d hd => hp d (mem_without.mp hd).1)
  below := fun d hd => ha.below d (mem_without.mp hd).1

/-- A connection whose requests have settled. -/
theorem Apart.setConn (ha : Apart h) (hc : c ∈ h.conns) {c' : Conn} (hptr : c'.ptr = c.ptr)
    (hsettles : Settles c.table c'.table) : Apart (h.setConn c') := by
  -- every request of the new table is one of the old, up to its event
  have hold : ∀ d ∈ (h.setConn c').conns, ∀ r ∈ d.table.pendingRequests,
      ∃ d' ∈ h.conns, d'.ptr = d.ptr ∧ ∃ r' ∈ d'.table.pendingRequests, r'.ptr = r.ptr ∧
        (r.event = none ∨ r.event = r'.event) := by
    intro d hd r hr
    rcases mem_setConn hd with rfl | ⟨hd, -⟩
    · obtain ⟨r', hr', hsame⟩ := hsettles r hr
      exact ⟨c, hc, hptr.symm, r', hr', hsame⟩
    · exact ⟨d, hd, rfl, r, hr, rfl, Or.inr rfl⟩
  refine ⟨?_, ?_, ?_⟩
  · intro d hd e he r hr r' hr' heq
    obtain ⟨d₀, hd₀, hdptr, r₀, hr₀, hrptr, -⟩ := hold d hd r hr
    obtain ⟨e₀, he₀, heptr, r₁, hr₁, hrptr', -⟩ := hold e he r' hr'
    rw [← hdptr, ← heptr]
    exact ha.tables d₀ hd₀ e₀ he₀ r₀ hr₀ r₁ hr₁ (by rw [hrptr, hrptr', heq])
  · refine ha.timers.mono (fun id arg hp d hd r hr hevent => ?_)
    obtain ⟨d₀, hd₀, -, r₀, hr₀, hrptr, hnone | hsame⟩ := hold d hd r hr
    · rw [hnone] at hevent
      cases hevent
    · rw [← hrptr]
      exact hp d₀ hd₀ r₀ hr₀ (hsame ▸ hevent)
  · intro d hd r hr id hevent
    obtain ⟨d₀, hd₀, -, r₀, hr₀, -, hnone | hsame⟩ := hold d hd r hr
    · rw [hnone] at hevent
      cases hevent
    · exact ha.below d₀ hd₀ r₀ hr₀ id (hsame ▸ hevent)

/-- A connection that comes with an empty table. -/
theorem Apart.arrive (ha : Apart h) (hpending : c.table.pendingRequests = []) {lastCid : BitVec 16}
    {trace : List Call} :
    Apart ⟨c :: h.conns, lastCid, { h.base with next := h.base.next + 1 }, trace⟩ := by
  have hempty : ∀ r, r ∉ c.table.pendingRequests := by
    intro r
    rw [hpending]
    exact List.not_mem_nil
  refine ⟨?_, ?_, ?_⟩
  · intro d hd e he r hr r' hr'
    rcases List.mem_cons.mp hd with rfl | hd
    · exact absurd hr (hempty r)
    · rcases List.mem_cons.mp he with rfl | he
      · exact absurd hr' (hempty r')
      · exact ha.tables d hd e he r hr r' hr'
  · intro e he d hd r hr
    rcases List.mem_cons.mp hd with rfl | hd
    · exact absurd hr (hempty r)
    · exact ha.timers e he d hd r hr
  · intro d hd r hr id hevent
    rcases List.mem_cons.mp hd with rfl | hd
    · exact absurd hr (hempty r)
    · exact Nat.lt_succ_of_lt (ha.below d hd r hr id hevent)

/-- A new event that is no request's yet. -/
theorem Apart.eventNew (ha : Apart h) (arg : EventArg) :
    Apart (h.setBase (Ipc.eventNew arg h.base).2) where
  tables := ha.tables
  timers := by
    refine ha.timers.eventNew (fun d hd r hr hevent => ?_)
    have hlt := ha.below d hd r hr _ hevent
    omega
  below := fun d hd r hr id hevent => Nat.lt_succ_of_lt (ha.below d hd r hr id hevent)

/-- A new request with its timer. -/
theorem Apart.register (ha : Apart h) (hl : Lives h) (hc : c ∈ h.conns)
    (callback : Option Callback) (context : Context) (timeoutMs : Int) :
    Apart ((h.setConn { c with table := registerIn c.table h.base callback context timeoutMs }).setBase
      (armTimer h.base)) := by
  have hold : ∀ d ∈ (h.setConn
      { c with table := registerIn c.table h.base callback context timeoutMs }).conns,
      ∀ r ∈ d.table.pendingRequests,
        (d.ptr = c.ptr ∧ r = newRequest c.table h.base callback context timeoutMs) ∨
          ∃ d' ∈ h.conns, d'.ptr = d.ptr ∧ r ∈ d'.table.pendingRequests := by
    intro d hd r hr
    rcases mem_setConn hd with rfl | ⟨hd, -⟩
    · rcases List.mem_cons.mp hr with rfl | hr
      · exact Or.inl ⟨rfl, rfl⟩
      · exact Or.inr ⟨c, hc, rfl, hr⟩
    · exact Or.inr ⟨d, hd, rfl, hr⟩
  refine ⟨?_, ?_, ?_⟩
  · intro d hd e he r hr r' hr' heq
    rcases hold d hd r hr with ⟨hdptr, rfl⟩ | ⟨d₀, hd₀, hdptr, hr₀⟩
    · rcases hold e he r' hr' with ⟨heptr, rfl⟩ | ⟨e₀, he₀, heptr, hr₁⟩
      · rw [hdptr, heptr]
      · have hlt := hl.requests e₀ he₀ r' hr₁
        have hnew : h.base.next = r'.ptr := heq
        omega
    · rcases hold e he r' hr' with ⟨heptr, rfl⟩ | ⟨e₀, he₀, heptr, hr₁⟩
      · have hlt := hl.requests d₀ hd₀ r hr₀
        have hnew : r.ptr = h.base.next := heq
        omega
      · rw [← hdptr, ← heptr]
        exact ha.tables d₀ hd₀ e₀ he₀ r hr₀ r' hr₁ heq
  · intro e he d hd r hr hevent
    rcases hold d hd r hr with ⟨-, rfl⟩ | ⟨d₀, hd₀, -, hr₀⟩
    · rcases List.mem_cons.mp he with rfl | he
      · rfl
      · have hlt := hl.events e he
        have hnew : h.base.next + 1 = e.id := Option.some.inj hevent
        omega
    · rcases List.mem_cons.mp he with rfl | he
      · have hlt := ha.below d₀ hd₀ r hr₀ _ hevent
        have hnew : (h.base.next + 1 : Nat) < h.base.next := hlt
        omega
      · exact ha.timers e he d₀ hd₀ r hr₀ hevent
  · intro d hd r hr id hevent
    rcases hold d hd r hr with ⟨-, rfl⟩ | ⟨d₀, hd₀, -, hr₀⟩
    · have hnew : h.base.next + 1 = id := Option.some.inj hevent
      show id < h.base.next + 2
      omega
    · exact Nat.lt_add_right 2 (ha.below d₀ hd₀ r hr₀ id hevent)

end Apart

/-- **Every step keeps the tables apart.** -/
theorem Endpoint.Step.apart {h h' : Endpoint} (hstep : h.Step h') (hl : Lives h) (ha : Apart h) :
    Apart h' := by
  cases hstep with
  | bump hn => exact ha.setBase hn (fun _ hP => hP)
  | added id => exact ha.setBase (Nat.le_refl _) (fun _ hP => hP.eventAdd id)
  | note hc => exact ha.note _
  | arrive hptr hevent hpending hlast hcid => exact ha.arrive hpending
  | refuse hcid =>
      exact ⟨ha.tables, ha.timers,
        fun d hd r hr id hevent => Nat.lt_succ_of_lt (ha.below d hd r hr id hevent)⟩
  | @watch c hc hevent =>
      have hset : Apart (h.setConn { c with event := some h.base.next }) :=
        ha.setConn hc rfl (fun r hr => ⟨r, hr, rfl, Or.inr rfl⟩)
      exact hset.eventNew (.client c.ptr)
  | send => exact ha.note _
  | @register c fd packet callback context timeoutMs hc ht hsize hnum =>
      exact (ha.register hl hc callback context timeoutMs).note _
  | @close c calls hc hcalls hclose hrelease =>
      refine ((ha.without c.ptr).setBase ?_ (fun P hP => ?_)).note calls
      · rw [shutdownRequests_next, eventFreeIf_next]
        exact Nat.le_refl _
      · exact (hP.eventFreeIf_weak c.event).shutdown c.table
  | skip => exact ha.note _
  | deliver => exact ha.note _
  | @complete c f req rc base calls hc hold htake hcalls =>
      have hptr : ({ c with table := rc } : Conn).ptr = c.ptr := rfl
      have hset := ha.setConn hc hptr (settles_takeResponse htake)
      refine (hset.setBase ?_ (fun P hP => hP.taken htake)).note _
      exact Nat.le_of_eq (takeResponse_sub htake).1.symm
  | @timeout c event ptr req rc base calls hc hout hcalls =>
      have hptr : ({ c with table := rc } : Conn).ptr = c.ptr := rfl
      have hset := ha.setConn hc hptr (settles_onTimeout hout)
      refine (hset.setBase ?_ (fun P hP => (hP.timerFired event).onTimeout hout)).note calls
      exact Nat.le_of_eq (afIpcOnTimeout_sub hout).1.symm

/-- **Every run keeps them apart.** -/
theorem Endpoint.Steps.apart {h h' : Endpoint} (hsteps : h.Steps h') (hl : Lives h)
    (ha : Apart h) : Apart h' := by
  induction hsteps with
  | refl => exact ha
  | tail hsteps hstep ih => exact hstep.apart (Endpoint.Steps.lives hsteps hl) ih

end AfIpc.Ipc
