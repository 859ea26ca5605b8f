/-
  AfIpc.Ipcs.Server

  The server side (`af_ipc_server.c`) as a machine over one state: the server
  structure with its client records, the event base, and what has been observed.

  The application enters in two places.  Its calls from outside a callback are
  inputs of the machine.  What its receive, response and accept callbacks do is
  the `script`: each callback takes the next entry, a list of library calls, and
  makes them in turn; a callback that finds no entry does nothing.  The close
  callback makes no calls.  A client record is live while it is in the list, and
  every access through a pointer to a record that is not is a fault.
-/

import AfIpc.Ipc.Receive

namespace AfIpc.Ipcs

open AfIpc.Lib AfIpc.Ipc

-- ============================================================================
-- State
-- ============================================================================

def clientFlagsMarkedForShutdown : BitVec 16 := 1 <<< 0
def clientFlagsInReceive : BitVec 16 := 1 <<< 1
def serverFlagsMutexInitialized : BitVec 16 := 1 <<< 0

/-- `af_ipcs_client_t`, with its address.  `server` is always the one server. -/
structure Client where
  ptr : Nat
  clientFd : Int
  cid : BitVec 16
  recvEvent : Option Nat
  reqControl : ReqControl
  clientContext : Context
  flags : BitVec 16
  deriving DecidableEq, Repr

/-- `struct af_ipcs_server_struct`; the clients are in list order. -/
structure Server where
  serverFd : Int
  serverListenerEvent : Option Nat
  clntMutex : Bool
  clients : List Client
  lastCid : BitVec 16
  flags : BitVec 16
  acceptCallback : Option Callback
  acceptContext : Context
  receiveCallback : Option Callback
  closeCallback : Option Callback
  deriving DecidableEq, Repr

/-- A library call of the application, with the outcomes of the system calls it
    leads to.  A broadcast makes one `sendmsg` for each descriptor. -/
inductive Action where
  | sendResponse (seqNum : BitVec 32) (txBuffer : List Byte) (txBufferSize : Int) (env : SendEnv)
  | sendUnsolicited (clientId : BitVec 16) (txBuffer : List Byte) (txBufferSize : Int)
      (env : Int → SendEnv)
  | sendRequest (clientId : BitVec 16) (txBuffer : List Byte) (txBufferSize : Int)
      (callback : Option Callback) (context : Context) (timeoutMs : Int) (env : SendEnv)
  | closeClient (clientId : BitVec 16)

structure World where
  server : Server
  base : EventBase
  script : List (List Action)
  trace : List Call

namespace World

/-- Observe a call. -/
def note (w : World) (c : Call) : World := { w with trace := w.trace ++ [c] }

/-- The client list replaced. -/
def setClients (w : World) (clients : List Client) : World :=
  { w with server := { w.server with clients := clients } }

/-- Observe the `sendmsg` of `af_ipc_send`, if it came to that. -/
def noteSend (w : World) (c : Client) (sentBy : SentBy) (packet : Option Packet) (ok : Bool) :
    World :=
  match packet with
  | some packet => w.note (.sendmsg c.ptr c.clientFd sentBy packet ok)
  | none => w

def setBase (w : World) (base : EventBase) : World := { w with base := base }

/-- Follow a pointer to a client record. -/
def client (w : World) (ptr : Nat) : Except Fault Client :=
  match w.server.clients.find? (fun c => c.ptr = ptr) with
  | some c => .ok c
  | none => .error .useAfterRelease

/-- Write a client record back through its pointer. -/
def setClient (w : World) (c : Client) : World :=
  w.setClients (w.server.clients.map (fun d => if d.ptr = c.ptr then c else d))

/-- `pthread_mutex_lock(&clnt_mutex)`. -/
def lock (w : World) : Except Fault World :=
  if w.server.clntMutex then .error .deadlock
  else .ok { w with server := { w.server with clntMutex := true } }

def unlock (w : World) : World := { w with server := { w.server with clntMutex := false } }

end World

-- ============================================================================
-- Clients
-- ============================================================================

/-- `get_next_cid`.  It does not end while every id is taken, so the fuel is one
    round of the counter. -/
def getNextCid (clients : List Client) : Nat → BitVec 16 → Except Fault (BitVec 16)
  | 0, _ => .error .outOfFuel
  | fuel + 1, lastCid =>
    let lastCid := lastCid + 1
    let lastCid := if lastCid = 0 then lastCid + 1 else lastCid
    if clients.any (fun c => c.cid = lastCid) then getNextCid clients fuel lastCid
    else .ok lastCid

/-- `find_client_by_cid`. -/
def findClientByCid (w : World) (cid : BitVec 16) : Option Client :=
  w.server.clients.find? (fun c => c.cid = cid)

/-- `AF_IPC_STATUS_DONT_CALL_CALLBACK`. -/
def statusDontCallCallback : Int := 1

/-- `close_client`. -/
def closeClient (status : Int) (ptr : Nat) (w : World) : Except Fault World := do
  let c ← w.client ptr
  let w := w.note (.shutdown c.clientFd .rd)
  let w := w.setBase (eventFreeIf c.recvEvent w.base)
  let w ← w.lock
  let w := w.setClients (w.server.clients.eraseP (fun d => d.ptr = ptr))
  let w := w.unlock
  let w := w.setBase (afIpcUtilShutdownRequests c.reqControl w.base).2
  let w := w.note (.release ptr)
  let w := w.note (.closeFd c.clientFd)
  if status ≠ statusDontCallCallback ∧ w.server.closeCallback.isSome then
    return w.note (.closeCallback ptr status c.cid c.clientContext)
  return w

/-- What `accept` and the calls of `add_client` come to.  `context` is what the
    accept callback stores as the client's context. -/
structure AcceptEnv where
  clientFd : Int
  alloc : Bool
  reqPool : Bool
  reqMutex : Int
  recvEvent : Bool
  context : Context
  deriving DecidableEq, Repr

/-- `alloc_and_init_client`: the address of the client, which heads the list. -/
def allocAndInitClient (env : AcceptEnv) (w : World) : Except Fault (Option Nat × World) :=
  if env.alloc then do
    let (ptr, base) := w.base.alloc
    let w := w.setBase base
    let cid ← getNextCid w.server.clients 65536 w.server.lastCid
    let w := { w with server := { w.server with lastCid := cid } }
    let (ret, rc) := afIpcUtilInitRequests env.reqPool env.reqMutex
    if ret < 0 then
      return (none, w)
    let c : Client := ⟨ptr, 0, cid, none, rc, 0, 0⟩
    return (some ptr, w.setClients (c :: w.server.clients))
  else .ok (none, w)

-- ============================================================================
-- Calls of the application
-- ============================================================================

/-- `af_ipcs_send_response`. -/
def afIpcsSendResponse (seqNum : BitVec 32) (txBuffer : List Byte) (txBufferSize : Int)
    (env : SendEnv) (w : World) : Except Fault (Reply × World) := do
  let w ← w.lock
  if getSeqId seqNum ≠ 0 then
    match findClientByCid w (getClientId seqNum) with
    | some c =>
      let r := afIpcSend none w.base seqNum txBuffer txBufferSize none 0 0 env
      let w := w.noteSend c .response r.packet env.sendmsg
      if r.ret < 0 then do
        let w ← closeClient statusError c.ptr w.unlock
        return (⟨r.ret, r.errno⟩, w)
      return (⟨r.ret, r.errno⟩, w.unlock)
    | none => return (⟨-1, some einval⟩, w.unlock)
  else return (⟨-1, some einval⟩, w.unlock)

/-- The broadcast of `af_ipcs_send_unsolicited`; its sends may fail unnoticed. -/
def broadcast (txBuffer : List Byte) (txBufferSize : Int) (env : Int → SendEnv)
    (clients : List Client) (w : World) : World :=
  clients.foldl (fun w c =>
    let r := afIpcSend none w.base 0 txBuffer txBufferSize none 0 0 (env c.clientFd)
    w.noteSend c .unsolicited r.packet (env c.clientFd).sendmsg) w

/-- `af_ipcs_send_unsolicited`. -/
def afIpcsSendUnsolicited (clientId : BitVec 16) (txBuffer : List Byte) (txBufferSize : Int)
    (env : Int → SendEnv) (w : World) : Except Fault (Reply × World) := do
  let w ← w.lock
  if clientId = 0 then
    let w := broadcast txBuffer txBufferSize env w.server.clients w
    return (⟨0, none⟩, w.unlock)
  match findClientByCid w clientId with
  | some c =>
    if c.clientFd ≥ 0 then
      let r := afIpcSend none w.base 0 txBuffer txBufferSize none 0 0 (env c.clientFd)
      let w := w.noteSend c .unsolicited r.packet (env c.clientFd).sendmsg
      if r.ret < 0 then do
        let w ← closeClient statusError c.ptr w.unlock
        return (⟨r.ret, r.errno⟩, w)
      return (⟨r.ret, r.errno⟩, w.unlock)
    else return (⟨-1, some einval⟩, w.unlock)
  | none => return (⟨-1, some enoent⟩, w.unlock)

/-- `af_ipcs_send_request`. -/
def afIpcsSendRequest (clientId : BitVec 16) (txBuffer : List Byte) (txBufferSize : Int)
    (callback : Option Callback) (context : Context) (timeoutMs : Int) (env : SendEnv)
    (w : World) : Except Fault (Reply × World) := do
  if clientId = 0 then
    return (⟨-1, some einval⟩, w)
  let w ← w.lock
  match findClientByCid w clientId with
  | some c =>
    if c.clientFd ≥ 0 then
      let r := afIpcSend (some c.reqControl) w.base 0 txBuffer txBufferSize callback context
        timeoutMs env
      let w := (w.setClient { c with reqControl := r.rc.getD c.reqControl }).setBase r.base
      let w := w.noteSend c (.request callback context) r.packet env.sendmsg
      if r.ret < 0 then do
        let w ← closeClient statusError c.ptr w.unlock
        return (⟨r.ret, r.errno⟩, w)
      return (⟨r.ret, r.errno⟩, w.unlock)
    else return (⟨-1, some enoent⟩, w.unlock)
  | none => return (⟨-1, some enoent⟩, w.unlock)

/-- `af_ipcs_close_client`. -/
def afIpcsCloseClient (clientId : BitVec 16) (w : World) : Except Fault (Reply × World) :=
  match findClientByCid w clientId with
  | some c => do
    let w ← closeClient statusOk c.ptr w
    return (⟨0, none⟩, w)
  | none => .ok (⟨-1, none⟩, w)

/-- Make a call. -/
def runAction (w : World) : Action → Except Fault World
  | .sendResponse seqNum txBuffer txBufferSize env => do
    let (_, w) ← afIpcsSendResponse seqNum txBuffer txBufferSize env w
    return w
  | .sendUnsolicited clientId txBuffer txBufferSize env => do
    let (_, w) ← afIpcsSendUnsolicited clientId txBuffer txBufferSize env w
    return w
  | .sendRequest clientId txBuffer txBufferSize callback context timeoutMs env => do
    let (_, w) ← afIpcsSendRequest clientId txBuffer txBufferSize callback context timeoutMs env w
    return w
  | .closeClient clientId => do
    let (_, w) ← afIpcsCloseClient clientId w
    return w

/-- A callback of the application: it makes the calls of the next entry. -/
def runCallback (w : World) : Except Fault World :=
  match w.script with
  | [] => .ok w
  | actions :: script => run runAction { w with script := script } actions

-- ============================================================================
-- Events
-- ============================================================================

/-- `af_ipc_handle_receive_message` as `on_recv` calls it for the record at
    `ptr`: the id, the callback and the context are evaluated once. -/
def serverReceiver (ptr : Nat) (cid : BitVec 16) (callback : Option Callback)
    (context : Context) : Receiver World where
  clientId := cid
  table w := do
    let c ← w.client ptr
    return (c.reqControl, w.base)
  setTable rc base w := do
    let c ← w.client ptr
    return (w.setClient { c with reqControl := rc }).setBase base
  note f w := w.note (.frame ptr f)
  receive seqNum payload w :=
    match callback with
    | some _ => runCallback (w.note (.receiveCallback ptr seqNum payload context))
    | none => .ok w
  respond req seqNum payload w :=
    match req.responseCallback with
    | some _ => runCallback (w.note (.responseCallback ptr req statusOk seqNum payload))
    | none => .ok w

/-- What `on_recv` does around the handler. -/
def serverHooks (ptr : Nat) : RecvHooks World where
  enter w := do
    let c ← w.client ptr
    let w := w.setClient { c with flags := c.flags ||| clientFlagsInReceive }
    return (serverReceiver ptr c.cid w.server.receiveCallback c.clientContext, w)
  leave w := do
    let c ← w.client ptr
    let flags := c.flags &&& ~~~clientFlagsInReceive
    return (flags &&& clientFlagsMarkedForShutdown != 0, w.setClient { c with flags := flags })
  close status w := closeClient status ptr w
  retry e := e = eagain ∨ e = eintr

/-- `on_recv` for the record at `ptr`. -/
def onRecv (ptr : Nat) (results : List RecvResult) (w : World) : Except Fault World :=
  recvLoop (serverHooks ptr) results w

/-- `add_client`.  A client that gets no receive event is closed with the mutex
    held, and the `client == NULL` behind it is no assignment. -/
def addClient (env : AcceptEnv) (w : World) : Except Fault (Option Nat × World) := do
  let w ← w.lock
  let (client, w) ← allocAndInitClient env w
  match client with
  | none => return (none, w.unlock)
  | some ptr => do
    let c ← w.client ptr
    let w := w.setClient { c with clientFd := env.clientFd }
    let w ← if env.recvEvent then do
        let (e, base) := eventNew (.client ptr) w.base
        let c ← w.client ptr
        pure ((w.setClient { c with recvEvent := some e }).setBase base)
      else closeClient statusDontCallCallback ptr w
    let w := w.unlock
    match w.server.acceptCallback with
    | none => return (some ptr, w)
    | some _ => do
      let c ← w.client ptr
      let w := w.note (.acceptCallback c.cid)
      let w := w.setClient { c with clientContext := env.context }
      let w ← runCallback w
      return (some ptr, w)

/-- `FD_SETSIZE`. -/
def fdSetsize : Int := 1024

/-- `on_accept`. -/
def onAccept (env : AcceptEnv) (w : World) : Except Fault World := do
  if env.clientFd < 0 then
    return w
  let w := w.note (.accept env.clientFd)
  if env.clientFd > fdSetsize then
    return w.note (.closeFd env.clientFd)
  let (client, w) ← addClient env w
  match client with
  | some ptr => do
    let c ← w.client ptr
    return match c.recvEvent with
      | some e => w.setBase (eventAdd e w.base)
      | none => w
  | none => return w.note (.closeFd env.clientFd)

/-- The client whose table holds the request at `ptr`. -/
def World.ownerOf (w : World) (ptr : Nat) : Option Client :=
  w.server.clients.find? (fun c => c.reqControl.pendingRequests.any (fun r => r.ptr = ptr))

/-- `af_ipc_on_timeout`, when the timer `event` fires. -/
def onTimeout (event : Nat) (w : World) : Except Fault World :=
  match w.base.timerOf event with
  | none => .ok w
  | some ptr =>
    match w.ownerOf ptr with
    | none => .error .staleTimer
    | some c => do
      let (req, rc, base) ← afIpcOnTimeout ptr c.reqControl (timerFired event w.base)
      let w := (w.setClient { c with reqControl := rc }).setBase base
      match req.responseCallback with
      | some _ => runCallback (w.note (.responseCallback c.ptr req statusTimeout 0 []))
      | none => return w

/-- Whether the receive event of the record at `ptr` can fire. -/
def watches (base : EventBase) (ptr : Nat) : Bool :=
  base.events.any (fun e => e.arg = .client ptr && e.added)

/-- An input of the server: an event that fires, with what its callbacks do, or a
    call from outside. -/
inductive ServerEvent where
  | accept (env : AcceptEnv) (script : List (List Action))
  | recv (ptr : Nat) (results : List RecvResult) (script : List (List Action))
  | timeout (event : Nat) (script : List (List Action))
  | call (action : Action)

def serverStep (w : World) : ServerEvent → Except Fault World
  | .accept env script => onAccept env { w with script := script }
  | .recv ptr results script =>
    if watches w.base ptr then onRecv ptr results { w with script := script } else .ok w
  | .timeout event script => onTimeout event { w with script := script }
  | .call action => runAction w action

-- ============================================================================
-- Opening and closing
-- ============================================================================

/-- `af_ipcs_close`: the event base it leaves, and the calls it makes, up to and
    after the destruction of the client pool. -/
def afIpcsClose (w : World) : EventBase × List Call × List Call :=
  let calls : List Call := if w.server.serverFd ≠ -1 then [.shutdown w.server.serverFd .rd] else []
  let base := eventFreeIf w.server.serverListenerEvent w.base
  let calls := calls ++ if w.server.serverFd ≠ -1 then [.closeFd w.server.serverFd] else []
  let (base, calls) :=
    if w.server.flags &&& serverFlagsMutexInitialized ≠ 0 then
      w.server.clients.foldl (fun (base, calls) c =>
        let calls := calls ++ [.shutdown c.clientFd .rdwr]
        let base := eventFreeIf c.recvEvent base
        let base := (afIpcUtilShutdownRequests c.reqControl base).2
        let calls := calls ++ [.closeFd c.clientFd]
        let calls := calls ++ if w.server.closeCallback.isSome then
          [.closeCallback c.ptr statusOk c.cid c.clientContext] else []
        (base, calls)) (base, calls)
    else (base, calls)
  (base, calls, w.server.clients.map (fun c => .release c.ptr))

/-- What the calls of `af_ipcs_open` come to. -/
structure OpenEnv where
  base : Bool
  alloc : Bool
  clientPool : Bool
  serverFd : Int
  setsockopt : Bool
  bind : Bool
  listen : Bool
  mutexInit : Bool
  listenerEvent : Bool
  eventAdd : Bool
  deriving DecidableEq, Repr

/-- `af_ipcs_open`: the server, unless one of its calls fails; what it had set up
    by then is closed. -/
def afIpcsOpen (env : OpenEnv) (base : EventBase) (acceptCallback : Option Callback)
    (acceptContext : Context) (receiveCallback closeCallback : Option Callback) :
    Option World :=
  if ¬ env.base ∨ ¬ env.alloc ∨ ¬ env.clientPool ∨ env.serverFd < 0 ∨ ¬ env.setsockopt ∨
      ¬ env.bind ∨ ¬ env.listen ∨ ¬ env.mutexInit ∨ ¬ env.listenerEvent ∨ ¬ env.eventAdd then
    none
  else
    -- `calloc` clears the structure, the flags included
    let (e, base) := eventNew .server base
    let base := eventAdd e base
    some
      { server :=
          { serverFd := env.serverFd, serverListenerEvent := some e, clntMutex := false,
            clients := [], lastCid := 0, flags := 0, acceptCallback := acceptCallback,
            acceptContext := acceptContext, receiveCallback := receiveCallback,
            closeCallback := closeCallback }
        base := base, script := [], trace := [] }

end AfIpc.Ipcs
