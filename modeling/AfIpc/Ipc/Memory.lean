/-
  AfIpc.Ipc.Memory

  The request functions of `af_ipc_common.c` as they work on memory.  Here the
  pending requests are the records of a pool, linked by their `next` pointers; the
  pool gives out any record that is free, with what its last user left in it, and
  libevent puts an event at any address where none is live.  Reading or writing a
  record that is not allocated is a fault, and so is freeing an event that is not
  live; the loops over the list take fuel.

  The table of `AfIpc.Ipc.Requests` has a list of requests in place of the records,
  and addresses that are used once.  That the two agree is shown in
  `AfIpc.Ipc.MemoryRefines`.
-/

import AfIpc.Lib.Chain
import AfIpc.Ipc.PendingUnique

namespace AfIpc.Ipc

open AfIpc.Lib

-- ============================================================================
-- State
-- ============================================================================

/-- `af_ipc_request_t` but for its pointer to the next record. -/
structure RequestCell where
  seqNum : BitVec 32
  event : Option Nat
  timeoutVal : Int
  responseCallback : Option Callback
  responseContext : Context
  deriving DecidableEq, Repr

/-- Whose callback a response or a timeout leads to, if it has one. -/
structure Addressee where
  seqNum : BitVec 32
  responseCallback : Option Callback
  responseContext : Context
  deriving DecidableEq, Repr

def RequestCell.addressee (r : RequestCell) : Addressee :=
  ⟨r.seqNum, r.responseCallback, r.responseContext⟩

def Request.addressee (r : Request) : Addressee :=
  ⟨r.seqNum, r.responseCallback, r.responseContext⟩

/-- What is seen of a call on a request table. -/
inductive Heard where
  | sent (ret : Int) (errno : Option Errno) (packet : Option Packet)
  | answered (req : Option Addressee)
  | timedOut (req : Option Addressee)
  deriving DecidableEq, Repr

/-- `af_ipc_req_control_t` with the records of its pool, and the event base.  The
    addresses of events are libevent's choice, so `base.next` has no use. -/
structure Memory where
  lastSeqId : BitVec 16
  mutexCreated : Bool
  pendingRequests : Option Nat
  reqPool : Store Nat RequestCell
  base : EventBase
  heard : List Heard

/-- What the pool and libevent give out for a request: the address of a record,
    what is left in the record, and the address of an event. -/
structure Lent where
  slot : Nat
  left : Node Nat RequestCell
  event : Nat
  deriving DecidableEq, Repr

/-- `af_ipc_util_init_requests`, where it succeeds. -/
def initialMemory : Memory := ⟨0, true, none, fun _ => none, ⟨[], 0⟩, []⟩

-- ============================================================================
-- Records and events
-- ============================================================================

/-- `evtimer_new`, where it succeeds. -/
def eventNewAt (event : Nat) (arg : EventArg) (base : EventBase) : EventBase :=
  { base with events := ⟨event, arg, false⟩ :: base.events }

/-- `event_free` of an event that must be live. -/
def eventFreeLive (event : Nat) (base : EventBase) : Except PointerFault EventBase :=
  if base.events.any (fun e => e.id = event) then .ok (eventFree event base)
  else .error .dangling

namespace Memory

def hear (m : Memory) (h : Heard) : Memory := { m with heard := m.heard ++ [h] }

def setBase (m : Memory) (base : EventBase) : Memory := { m with base := base }

/-- Read a record. -/
def request (ptr : Nat) (m : Memory) : Except PointerFault RequestCell := do
  let n ← m.reqPool.read ptr
  return n.data

/-- Write a record. -/
def setRequest (ptr : Nat) (f : RequestCell → RequestCell) (m : Memory) :
    Except PointerFault Memory := do
  let pool ← m.reqPool.setData ptr f
  return { m with reqPool := pool }

/-- `if (req->event) { event_del(req->event); event_free(req->event); req->event = NULL; }`. -/
def dropEvent (ptr : Nat) (m : Memory) : Except PointerFault Memory := do
  let r ← m.request ptr
  match r.event with
  | none => return m
  | some e => do
    let base ← eventFreeLive e m.base
    (m.setBase base).setRequest ptr (fun r => { r with event := none })

-- ============================================================================
-- The request functions
-- ============================================================================

/-- `af_ipc_util_find_unused_request`, where the pool has a record. -/
def afIpcUtilFindUnusedRequest (lent : Lent) (m : Memory) : Except PointerFault Memory := do
  let pool := m.reqPool.put lent.slot lent.left
  let pool ← pool.setNext lent.slot m.pendingRequests
  return { m with reqPool := pool, pendingRequests := some lent.slot }

/-- `af_ipc_remove_request`. -/
def afIpcRemoveRequest (fuel : Nat) (seqNum : BitVec 32) (m : Memory) :
    Except PointerFault Memory := do
  let (head, pool) ← m.reqPool.unlink (fun r => r.seqNum = seqNum) m.pendingRequests fuel none
    m.pendingRequests
  return { m with reqPool := pool, pendingRequests := head }

/-- `af_ipc_util_gen_seq_id`. -/
def afIpcUtilGenSeqId (m : Memory) : BitVec 32 × Memory :=
  ((nextSeqId m.lastSeqId).setWidth 32, { m with lastSeqId := nextSeqId m.lastSeqId })

/-- The body of the loop in `af_ipc_util_shutdown_requests`. -/
def shutdownRequest (r : RequestCell) (base : EventBase) :
    Except PointerFault (RequestCell × EventBase) :=
  match r.event with
  | none => .ok (r, base)
  | some e => do
    let base ← eventFreeLive e base
    return ({ r with event := none }, base)

/-- `af_ipc_util_shutdown_requests`: destroying the pool frees its records. -/
def afIpcUtilShutdownRequests (fuel : Nat) (m : Memory) : Except PointerFault Memory := do
  let (_, base) ← Store.visit shutdownRequest fuel m.reqPool m.pendingRequests m.base
  return { m with reqPool := fun _ => none, pendingRequests := none, mutexCreated := false,
                  base := base }

/-- `af_ipc_on_timeout` up to its callback. -/
def afIpcOnTimeout (fuel : Nat) (ptr : Nat) (m : Memory) :
    Except PointerFault (Addressee × Memory) := do
  let pendingReq ← m.request ptr
  let m ← m.dropEvent ptr
  let m ← m.afIpcRemoveRequest fuel pendingReq.seqNum
  return (pendingReq.addressee, m)

/-- The response branch of `af_ipc_handle_receive_message` up to its callback. -/
def takeResponse (fuel : Nat) (seqNum : BitVec 32) (m : Memory) :
    Except PointerFault (Option Addressee × Memory) := do
  let found ← m.reqPool.find (fun r => r.seqNum = seqNum) fuel m.pendingRequests
  match found with
  | none => return (none, m)
  | some ptr => do
    let pendingReq ← m.request ptr
    let m ← if pendingReq.timeoutVal > 0 then m.dropEvent ptr else pure m
    let pendingReq ← m.request ptr
    let m ← m.afIpcRemoveRequest fuel seqNum
    return (some pendingReq.addressee, m)

/-- A request of `af_ipc_send` is linked and filled; it has no event yet. -/
def linkRequest (callback : Option Callback) (context : Context) (timeoutMs : Int) (lent : Lent)
    (m : Memory) : Except PointerFault (BitVec 32 × Memory) := do
  let m ← m.afIpcUtilFindUnusedRequest lent
  let req := lent.slot
  let (seqNum, m) := m.afIpcUtilGenSeqId
  let m ← m.setRequest req (fun r => { r with seqNum := seqNum })
  let m ← m.setRequest req (fun r =>
    { r with responseCallback := callback, responseContext := context,
             timeoutVal := timeoutMs, event := none })
  return (seqNum, m)

/-- The first locked section of `af_ipc_send`: the error, or the request with its
    number. -/
def sendRegister (fuel : Nat) (callback : Option Callback) (context : Context) (timeoutMs : Int)
    (env : SendEnv) (lent : Lent) (m : Memory) :
    Except PointerFault (Except Errno (Nat × BitVec 32) × Memory) := do
  if env.alloc then
    let (seqNum, m) ← m.linkRequest callback context timeoutMs lent
    let req := lent.slot
    if env.timer then
      let m := m.setBase (eventNewAt lent.event (.request req) m.base)
      let m ← m.setRequest req (fun r => { r with event := some lent.event })
      return (.ok (req, seqNum), m.setBase (eventAdd lent.event m.base))
    else
      let m ← m.afIpcRemoveRequest fuel seqNum
      return (.error env.timerErrno, m)
  else return (.error enomem, m)

/-- The second locked section of `af_ipc_send`. -/
def sendUnregister (fuel : Nat) (req : Nat) (seqNum : BitVec 32) (m : Memory) :
    Except PointerFault Memory := do
  let m ← m.dropEvent req
  m.afIpcRemoveRequest fuel seqNum

/-- `af_ipc_send` with a request table. -/
def afIpcSend (fuel : Nat) (seqNum : BitVec 32) (txBuffer : List Byte) (txBufferSize : Int)
    (callback : Option Callback) (context : Context) (timeoutMs : Int) (env : SendEnv)
    (lent : Lent) (m : Memory) : Except PointerFault (Heard × Memory) := do
  if oversize txBufferSize then
    return (.sent (-1) (some einval) none, m)
  if timeoutMs > 0 then
    let (registered, m) ← m.sendRegister fuel callback context timeoutMs env lent
    match registered with
    | .error err => return (.sent (-1) (some err) none, m)
    | .ok (req, seqNum) => do
      let packet := makePacket (seqNum ||| newRequestMask) txBuffer txBufferSize
      if env.sendmsg then
        return (.sent 0 none (some packet), m)
      let m ← m.sendUnregister fuel req seqNum
      return (.sent (-1) (some env.sendErrno) (some packet), m)
  else
    let packet := makePacket seqNum txBuffer txBufferSize
    if env.sendmsg then
      return (.sent 0 none (some packet), m)
    return (.sent (-1) (some env.sendErrno) (some packet), m)

end Memory

-- ============================================================================
-- The machine
-- ============================================================================

/-- What can happen to a request table in memory. -/
inductive MemoryOp where
  | send (txBuffer : List Byte) (txBufferSize : Int) (callback : Option Callback)
      (context : Context) (timeoutMs : Int) (env : SendEnv) (lent : Lent)
  | response (seqNum : BitVec 32)
  | timeout (event : Nat)

/-- One call.  Only an armed timer fires. -/
def memoryStep (fuel : Nat) (m : Memory) : MemoryOp → Except PointerFault Memory
  | .send txBuffer txBufferSize callback context timeoutMs env lent => do
    let (heard, m) ← m.afIpcSend fuel 0 txBuffer txBufferSize callback context timeoutMs env lent
    return m.hear heard
  | .response seqNum => do
    let (req, m) ← m.takeResponse fuel seqNum
    return m.hear (.answered req)
  | .timeout event =>
    match m.base.timerOf event with
    | none => return m.hear (.timedOut none)
    | some ptr => do
      let (req, m) ← (m.setBase (timerFired event m.base)).afIpcOnTimeout fuel ptr
      return m.hear (.timedOut (some req))

/-- The pool gives out a record that is free, and libevent an address where no
    event is live. -/
def Lends (m : Memory) : MemoryOp → Prop
  | .send _ _ _ _ _ _ lent => m.reqPool lent.slot = none ∧ ∀ e ∈ m.base.events, e.id ≠ lent.event
  | .response _ => True
  | .timeout _ => True

/-- What is seen of a call on the table. -/
def tableHears (s : TableState) : TableOp → Heard
  | .send txBuffer txBufferSize callback context timeoutMs env =>
    let r := afIpcSend (some s.rc) s.base 0 txBuffer txBufferSize callback context timeoutMs env
    .sent r.ret r.errno r.packet
  | .response seqNum => .answered ((takeResponse seqNum s.rc s.base).1.map Request.addressee)
  | .timeout event =>
    match s.base.timerOf event with
    | none => .timedOut none
    | some ptr =>
      match afIpcOnTimeout ptr s.rc (timerFired event s.base) with
      | .ok (req, _) => .timedOut (some req.addressee)
      | .error _ => .timedOut none

/-- What is seen of a run of the table. -/
def heardIn : TableState → List TableOp → List Heard
  | _, [] => []
  | s, op :: ops =>
    match tableStep s op with
    | .ok s' => tableHears s op :: heardIn s' ops
    | .error _ => []

end AfIpc.Ipc
