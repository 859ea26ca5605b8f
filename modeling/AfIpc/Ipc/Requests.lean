/-
  AfIpc.Ipc.Requests

  The pending-request table of `af_ipc_common.c`, with the event base its timers
  live in, and `af_ipc_send`, which registers requests.

  Records and events are known by address.  An address is handed out once: a
  record that the pool reuses is a new record here, so that an access through an
  old pointer can be told from one through the new.  `af_mempool_alloc`,
  `evtimer_new` and `sendmsg` succeed or fail as the caller of the model says.
  The request mutex is held inside the functions below only, none of which calls
  out while it holds it, and has no counterpart.
-/

import AfIpc.Ipc.Message

namespace AfIpc.Ipc

open AfIpc.Lib

/-- What a step of the library can run into. -/
inductive Fault where
  /-- The record of a connection is read or written after its release. -/
  | useAfterRelease
  /-- A timer fires whose request has left its table. -/
  | staleTimer
  /-- A thread locks a mutex it holds. -/
  | deadlock
  | outOfFuel
  deriving DecidableEq, Repr

/-! ## Status values and errors -/

def statusOk : Int := 0
def statusError : Int := -1
def statusTimeout : Int := -10

abbrev Errno := Nat

def enoent : Errno := 2
def eintr : Errno := 4
/-- `EAGAIN`, which is `EWOULDBLOCK`. -/
def eagain : Errno := 11
def enomem : Errno := 12
def einval : Errno := 22

/-- A return value, with `errno` where the function sets it. -/
structure Reply where
  ret : Int
  errno : Option Errno
  deriving DecidableEq, Repr

/-! ## The event base -/

/-- The argument an event was made with: the server, a client record or a
    request record. -/
inductive EventArg where
  | server
  | client (ptr : Nat)
  | request (ptr : Nat)
  deriving DecidableEq, Repr

structure Event where
  id : Nat
  arg : EventArg
  /-- `event_add` has been called, and the event has not fired for good. -/
  added : Bool
  deriving DecidableEq, Repr

/-- The live events of an event base, and the next address to be handed out. -/
structure EventBase where
  events : List Event
  next : Nat
  deriving DecidableEq, Repr

/-- A new address. -/
def EventBase.alloc (base : EventBase) : Nat × EventBase :=
  (base.next, { base with next := base.next + 1 })

/-- `event_new` and `evtimer_new`, where they succeed. -/
def eventNew (arg : EventArg) (base : EventBase) : Nat × EventBase :=
  (base.next, { events := ⟨base.next, arg, false⟩ :: base.events, next := base.next + 1 })

/-- `event_add` and `evtimer_add`. -/
def eventAdd (id : Nat) (base : EventBase) : EventBase where
  events := base.events.map (fun e => if e.id = id then { e with added := true } else e)
  next := base.next

/-- `event_free`, which deletes the event first. -/
def eventFree (id : Nat) (base : EventBase) : EventBase :=
  { base with events := base.events.filter (fun e => e.id != id) }

/-- A timer that fires is no longer added. -/
def timerFired (id : Nat) (base : EventBase) : EventBase where
  events := base.events.map (fun e => if e.id = id then { e with added := false } else e)
  next := base.next

/-- `if (event) event_free(event)`. -/
def eventFreeIf (event : Option Nat) (base : EventBase) : EventBase :=
  match event with
  | some id => eventFree id base
  | none => base

/-- The request whose timer the event is, if it is one that is armed. -/
def EventBase.timerOf (base : EventBase) (event : Nat) : Option Nat :=
  match base.events.find? (fun e => e.id = event) with
  | some ⟨_, .request ptr, true⟩ => some ptr
  | _ => none

/-! ## The request table -/

/-- A function pointer of the application. -/
abbrev Callback := Nat

/-- A context pointer of the application. -/
abbrev Context := Nat

/-- `af_ipc_request_t`. -/
structure Request where
  ptr : Nat
  seqNum : BitVec 32
  event : Option Nat
  timeoutVal : Int
  responseCallback : Option Callback
  responseContext : Context
  deriving DecidableEq, Repr

/-- `af_ipc_req_control_t`; the pending requests are in list order. -/
structure ReqControl where
  lastSeqId : BitVec 16
  mutexCreated : Bool
  pendingRequests : List Request
  deriving DecidableEq, Repr

/-- The table that `memset` leaves. -/
def ReqControl.zero : ReqControl := ⟨0, false, []⟩

/-- `af_ipc_util_init_requests`: `pool` says whether the pool can be made,
    `mutexRet` is what `pthread_mutex_init` returns. -/
def afIpcUtilInitRequests (pool : Bool) (mutexRet : Int) : Int × ReqControl :=
  if pool then (mutexRet, { ReqControl.zero with mutexCreated := mutexRet = 0 })
  else (-1, ReqControl.zero)

/-- `af_ipc_util_find_unused_request`: a slot from the pool becomes the head of
    the list.  The fields its caller fills are given with it. -/
def afIpcUtilFindUnusedRequest (rc : ReqControl) (req : Request) : ReqControl :=
  { rc with pendingRequests := req :: rc.pendingRequests }

/-- `af_ipc_remove_request`: the first request with the number goes. -/
def afIpcRemoveRequest (rc : ReqControl) (seqNum : BitVec 32) : ReqControl :=
  { rc with pendingRequests := rc.pendingRequests.eraseP (fun r => r.seqNum = seqNum) }

/-- Set the event field of the record at `ptr`. -/
def ReqControl.setEvent (rc : ReqControl) (ptr : Nat) (event : Option Nat) : ReqControl where
  lastSeqId := rc.lastSeqId
  mutexCreated := rc.mutexCreated
  pendingRequests :=
    rc.pendingRequests.map (fun r => if r.ptr = ptr then { r with event := event } else r)

/-- The 15-bit successor that `af_ipc_util_gen_seq_id` makes: it starts over at 1. -/
def nextSeqId (last : BitVec 16) : BitVec 16 :=
  let id := (last + 1) &&& 0x7fff
  if id = 0 then id + 1 else id

/-- `af_ipc_util_gen_seq_id`. -/
def afIpcUtilGenSeqId (rc : ReqControl) : BitVec 32 × ReqControl :=
  ((nextSeqId rc.lastSeqId).setWidth 32, { rc with lastSeqId := nextSeqId rc.lastSeqId })

/-- `af_ipc_util_shutdown_requests`. -/
def afIpcUtilShutdownRequests (rc : ReqControl) (base : EventBase) : ReqControl × EventBase :=
  ({ rc with pendingRequests := [], mutexCreated := false },
    rc.pendingRequests.foldl (fun base r => eventFreeIf r.event base) base)

/-- `af_ipc_on_timeout` up to its callback: the request whose callback it calls,
    and what it leaves.  `ptr` is the argument the timer was made with. -/
def afIpcOnTimeout (ptr : Nat) (rc : ReqControl) (base : EventBase) :
    Except Fault (Request × ReqControl × EventBase) :=
  match rc.pendingRequests.find? (fun r => r.ptr = ptr) with
  | none => .error .staleTimer
  | some req =>
    let base := eventFreeIf req.event base
    let rc := rc.setEvent ptr none
    .ok (req, afIpcRemoveRequest rc req.seqNum, base)

/-- The response branch of `af_ipc_handle_receive_message` up to its callback:
    the request with the number, if there is one, leaves the table. -/
def takeResponse (seqNum : BitVec 32) (rc : ReqControl) (base : EventBase) :
    Option Request × ReqControl × EventBase :=
  match rc.pendingRequests.find? (fun r => r.seqNum = seqNum) with
  | none => (none, rc, base)
  | some req =>
    let base := if req.timeoutVal > 0 then eventFreeIf req.event base else base
    (some req, afIpcRemoveRequest rc seqNum, base)

/-! ## Sending -/

/-- What `sendmsg` is given: the header, and the second `iovec`. -/
structure Packet where
  hdr : MsgHdr
  iovLen : Nat
  txBuffer : List Byte
  deriving DecidableEq, Repr

/-- The frame that a `sendmsg` which sends everything puts on the stream. -/
def Packet.frame (p : Packet) : Frame := ⟨p.hdr.seqNum, p.txBuffer.take p.iovLen⟩

/-- Its bytes. -/
def Packet.bytes (p : Packet) : List Byte := p.hdr.encode ++ p.frame.payload

/-- The outcomes of the calls `af_ipc_send` makes. -/
structure SendEnv where
  alloc : Bool
  timer : Bool
  timerErrno : Errno
  sendmsg : Bool
  sendErrno : Errno
  deriving DecidableEq, Repr

/-- Every call succeeds. -/
def SendEnv.good : SendEnv := ⟨true, true, 0, true, 0⟩

/-- What `af_ipc_send` returns, sets and leaves. -/
structure SendResult where
  ret : Int
  errno : Option Errno
  packet : Option Packet
  rc : Option ReqControl
  base : EventBase
  deriving DecidableEq, Repr

/-- The size test of `af_ipc_send`: the sum is a `size_t` and wraps for sizes
    from -8 to -1. -/
def oversize (txBufferSize : Int) : Bool := sizeT (txBufferSize + msghdrLen) > maxMsglen

/-- The frame that `af_ipc_send` makes of its arguments. -/
def makePacket (seqNum : BitVec 32) (txBuffer : List Byte) (txBufferSize : Int) : Packet where
  hdr := ⟨seqNum, BitVec.ofInt 16 (txBufferSize + msghdrLen)⟩
  iovLen := sizeT txBufferSize
  txBuffer := txBuffer

/-- What the first locked section of `af_ipc_send` leaves when it has registered
    a request. -/
structure Registered where
  seqNum : BitVec 32
  ptr : Nat
  event : Nat
  rc : ReqControl
  base : EventBase
  deriving DecidableEq, Repr

/-- The first locked section of `af_ipc_send`: link a request and arm its timer.
    A request that gets no timer is unlinked again. -/
def sendRegister (rc : ReqControl) (base : EventBase) (callback : Option Callback)
    (context : Context) (timeoutMs : Int) (env : SendEnv) :
    Except (Errno × ReqControl × EventBase) Registered :=
  if env.alloc then
    let (seqNum, rc) := afIpcUtilGenSeqId rc
    let (ptr, base) := base.alloc
    let rc := afIpcUtilFindUnusedRequest rc ⟨ptr, seqNum, none, timeoutMs, callback, context⟩
    if env.timer then
      let (e, base) := eventNew (.request ptr) base
      let rc := rc.setEvent ptr (some e)
      .ok ⟨seqNum, ptr, e, rc, eventAdd e base⟩
    else .error (env.timerErrno, afIpcRemoveRequest rc seqNum, base)
  else .error (enomem, rc, base)

/-- The second locked section of `af_ipc_send`, after a `sendmsg` that failed. -/
def sendUnregister (r : Registered) : ReqControl × EventBase :=
  (afIpcRemoveRequest (r.rc.setEvent r.ptr none) r.seqNum, eventFree r.event r.base)

/-- `af_ipc_send`. -/
def afIpcSend (rc : Option ReqControl) (base : EventBase) (seqNum : BitVec 32)
    (txBuffer : List Byte) (txBufferSize : Int) (callback : Option Callback) (context : Context)
    (timeoutMs : Int) (env : SendEnv) : SendResult :=
  if oversize txBufferSize then ⟨-1, some einval, none, rc, base⟩
  else if timeoutMs > 0 then
    match rc with
    | none => ⟨-1, some einval, none, rc, base⟩
    | some table =>
      match sendRegister table base callback context timeoutMs env with
      | .error (err, table, base) => ⟨-1, some err, none, some table, base⟩
      | .ok r =>
        let packet := makePacket (r.seqNum ||| newRequestMask) txBuffer txBufferSize
        if env.sendmsg then ⟨0, none, some packet, some r.rc, r.base⟩
        else
          let (table, base) := sendUnregister r
          ⟨-1, some env.sendErrno, some packet, some table, base⟩
  else
    let packet := makePacket seqNum txBuffer txBufferSize
    if env.sendmsg then ⟨0, none, some packet, rc, base⟩
    else ⟨-1, some env.sendErrno, some packet, rc, base⟩

end AfIpc.Ipc
