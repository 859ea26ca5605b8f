/-
  AfIpc.Ipcc.Client

  The client side (`af_ipc_client.c`) as a machine over one connection.  The
  application enters as it does on the server: by calls from outside, and by a
  script that its receive and response callbacks follow.  It keeps one rule: it
  makes no call on a handle that has been freed, which a failing call and the
  close callback tell it.  The library itself has no such rule, and every access
  of its own to a freed handle is a fault.
-/

import AfIpc.Lib.CString
import AfIpc.Ipc.Receive

namespace AfIpc.Ipcc

open AfIpc.Lib AfIpc.Ipc

-- ============================================================================
-- State
-- ============================================================================

def flagsMarkedForShutdown : BitVec 16 := 1 <<< 0
def flagsInReceive : BitVec 16 := 1 <<< 1

/-- `struct af_ipcc_server_struct`. -/
structure Server where
  fd : Int
  flags : BitVec 16
  receiveCallback : Option Callback
  closeCallback : Option Callback
  receiveContext : Context
  event : Option Nat
  reqControl : ReqControl
  deriving DecidableEq, Repr

/-- A library call of the application, with the outcomes of the system calls it
    leads to. -/
inductive Action where
  | sendRequest (txBuffer : List Byte) (txBufferSize : Int) (callback : Option Callback)
      (context : Context) (timeoutMs : Int) (env : SendEnv)
  | sendResponse (seqNum : BitVec 32) (txBuffer : List Byte) (txBufferSize : Int) (env : SendEnv)
  | sendUnsolicited (txBuffer : List Byte) (txBufferSize : Int) (env : SendEnv)
  | close
  deriving DecidableEq, Repr

/-- The process: `server` is what the handle points to, until it is freed. -/
structure World where
  server : Option Server
  base : EventBase
  script : List (List Action)
  trace : List Call
  deriving DecidableEq, Repr

namespace World

/-- Observe a call. -/
def note (w : World) (c : Call) : World := { w with trace := w.trace ++ [c] }

/-- Observe the `sendmsg` of `af_ipc_send`, if it came to that. -/
def noteSend (w : World) (fd : Int) (sentBy : SentBy) (packet : Option Packet) (ok : Bool) :
    World :=
  match packet with
  | some packet => w.note (.sendmsg 0 fd sentBy packet ok)
  | none => w

def setBase (w : World) (base : EventBase) : World := { w with base := base }

/-- Follow the handle. -/
def deref (w : World) : Except Fault Server :=
  match w.server with
  | some s => .ok s
  | none => .error .useAfterRelease

/-- Write the structure back through the handle. -/
def setServer (w : World) (s : Server) : World := { w with server := some s }

end World

-- ============================================================================
-- Closing
-- ============================================================================

/-- `close_and_free_server`. -/
def closeAndFreeServer (status : Int) (w : World) : Except Fault World := do
  let s ← w.deref
  let w := w.setBase (eventFreeIf s.event w.base)
  let w :=
    if s.fd ≠ -1 then
      let w := w.setBase (afIpcUtilShutdownRequests s.reqControl w.base).2
      (w.note (.shutdown s.fd .rdwr)).note (.closeFd s.fd)
    else w
  let w := { w.note (.release 0) with server := none }
  if s.closeCallback.isSome then
    return w.note (.closeCallback 0 status 0 s.receiveContext)
  return w

/-- `af_ipcc_close`. -/
def afIpccClose (w : World) : Except Fault World := do
  let s ← w.deref
  if s.flags &&& flagsInReceive ≠ 0 then
    return w.setServer { s with flags := s.flags ||| flagsMarkedForShutdown }
  closeAndFreeServer statusOk w

-- ============================================================================
-- Sending
-- ============================================================================

/-- What the three send functions share behind their checks: the send, and the
    end of the connection if it fails. -/
def sendOrClose (s : Server) (sentBy : SentBy) (r : SendResult) (env : SendEnv) (w : World) :
    Except Fault (Reply × World) := do
  let w := (w.setServer s).setBase r.base
  let w := w.noteSend s.fd sentBy r.packet env.sendmsg
  if r.ret < 0 then
    let w ← closeAndFreeServer statusError w
    return (⟨r.ret, r.errno⟩, w)
  return (⟨r.ret, r.errno⟩, w)

/-- `af_ipcc_send_request`. -/
def afIpccSendRequest (txBuffer : List Byte) (txBufferSize : Int) (callback : Option Callback)
    (context : Context) (timeoutMs : Int) (env : SendEnv) (w : World) :
    Except Fault (Reply × World) := do
  let s ← w.deref
  if s.fd < 0 then
    return (⟨-1, some einval⟩, w)
  let r := afIpcSend (some s.reqControl) w.base 0 txBuffer txBufferSize callback context timeoutMs
    env
  sendOrClose { s with reqControl := r.rc.getD s.reqControl } (.request callback context) r env w

/-- `af_ipcc_send_response`. -/
def afIpccSendResponse (seqNum : BitVec 32) (txBuffer : List Byte) (txBufferSize : Int)
    (env : SendEnv) (w : World) : Except Fault (Reply × World) := do
  let s ← w.deref
  if s.fd < 0 then
    return (⟨-1, some einval⟩, w)
  let r := afIpcSend none w.base seqNum txBuffer txBufferSize none 0 0 env
  sendOrClose s .response r env w

/-- `af_ipcc_send_unsolicited`. -/
def afIpccSendUnsolicited (txBuffer : List Byte) (txBufferSize : Int) (env : SendEnv)
    (w : World) : Except Fault (Reply × World) := do
  let s ← w.deref
  if s.fd < 0 then
    return (⟨-1, some einval⟩, w)
  let r := afIpcSend none w.base 0 txBuffer txBufferSize none 0 0 env
  sendOrClose s .unsolicited r env w

/-- Make a call, unless the handle has been freed. -/
def runAction (w : World) (a : Action) : Except Fault World :=
  if w.server.isNone then .ok w
  else
    match a with
    | .sendRequest txBuffer txBufferSize callback context timeoutMs env => do
      let (_, w) ← afIpccSendRequest txBuffer txBufferSize callback context timeoutMs env w
      return w
    | .sendResponse seqNum txBuffer txBufferSize env => do
      let (_, w) ← afIpccSendResponse seqNum txBuffer txBufferSize env w
      return w
    | .sendUnsolicited txBuffer txBufferSize env => do
      let (_, w) ← afIpccSendUnsolicited txBuffer txBufferSize env w
      return w
    | .close => afIpccClose w

/-- A callback of the application: it makes the calls of the next entry. -/
def runCallback (w : World) : Except Fault World :=
  match w.script with
  | [] => .ok w
  | actions :: script => run runAction { w with script := script } actions

-- ============================================================================
-- Events
-- ============================================================================

/-- `af_ipc_handle_receive_message` as `af_ipcc_client_on_recv` calls it: the
    callback and the context are evaluated once. -/
def receiver (callback : Option Callback) (context : Context) : Receiver World where
  clientId := 0
  table w := do
    let s ← w.deref
    return (s.reqControl, w.base)
  setTable rc base w := do
    let s ← w.deref
    return (w.setServer { s with reqControl := rc }).setBase base
  note f w := w.note (.frame 0 f)
  receive seqNum payload w :=
    match callback with
    | some _ => runCallback (w.note (.receiveCallback 0 seqNum payload context))
    | none => .ok w
  respond req seqNum payload w :=
    match req.responseCallback with
    | some _ => runCallback (w.note (.responseCallback 0 req statusOk seqNum payload))
    | none => .ok w

/-- What `af_ipcc_client_on_recv` does around the handler; it does not retry on
    `EINTR`. -/
def hooks : RecvHooks World where
  enter w := do
    let s ← w.deref
    let w := w.setServer { s with flags := s.flags ||| flagsInReceive }
    return (receiver s.receiveCallback s.receiveContext, w)
  leave w := do
    let s ← w.deref
    let flags := s.flags &&& ~~~flagsInReceive
    return (flags &&& flagsMarkedForShutdown != 0, w.setServer { s with flags := flags })
  close status w := closeAndFreeServer status w
  retry e := e = eagain

/-- `af_ipcc_client_on_recv`. -/
def afIpccClientOnRecv (results : List RecvResult) (w : World) : Except Fault World :=
  recvLoop hooks results w

/-- `af_ipc_on_timeout`, when the timer `event` fires. -/
def onTimeout (event : Nat) (w : World) : Except Fault World :=
  match w.base.timerOf event with
  | none => .ok w
  | some ptr =>
    match w.server with
    | none => .error .staleTimer
    | some s => do
      let (req, rc, base) ← afIpcOnTimeout ptr s.reqControl (timerFired event w.base)
      let w := (w.setServer { s with reqControl := rc }).setBase base
      match req.responseCallback with
      | some _ => runCallback (w.note (.responseCallback 0 req statusTimeout 0 []))
      | none => return w

/-- Whether the receive event can fire. -/
def watches (base : EventBase) : Bool :=
  base.events.any (fun e => e.arg = .server && e.added)

/-- An input of the client: an event that fires, with what its callbacks do, or a
    call from outside. -/
inductive ClientEvent where
  | recv (results : List RecvResult) (script : List (List Action))
  | timeout (event : Nat) (script : List (List Action))
  | call (action : Action)
  deriving DecidableEq, Repr

def clientStep (w : World) : ClientEvent → Except Fault World
  | .recv results script =>
    if watches w.base then afIpccClientOnRecv results { w with script := script } else .ok w
  | .timeout event script => onTimeout event { w with script := script }
  | .call action => runAction w action

-- ============================================================================
-- Opening
-- ============================================================================

/-- What the calls of `af_ipcc_open_server` come to; `event_new` succeeds.
    `sunPathEnd` is what the last byte of `sun_path`, which is not set, holds. -/
structure OpenEnv where
  base : Bool
  alloc : Bool
  socket : Int
  connect : Bool
  reqPool : Bool
  reqMutex : Int
  sunPathEnd : Byte
  deriving DecidableEq, Repr

/-- `af_ipc_server_sock_path_prefix`, `/var/run/`. -/
def sockPathPrefix : List Byte := [47, 118, 97, 114, 47, 114, 117, 110, 47]

/-- `sizeof(server_path)` and `sizeof(remote.sun_path)`. -/
def serverPathSize : Nat := 128
def sunPathSize : Nat := 108

/-- The path that `connect` is given: `sprintf` to `server_path`, `strncpy` to `sun_path`,
    and `strlen` of that, which a path that fills it leaves without a NUL. -/
def sunPath (name : CString) (sunPathEnd : Byte) : Except Trap (List Byte) :=
  let serverPath := sockPathPrefix ++ name.bytes
  if serverPath.length + 1 > serverPathSize then .error .outOfBounds
  else if serverPath.length ≥ sunPathSize - 1 ∧ sunPathEnd ≠ 0 then .error .outOfBounds
  else .ok (serverPath.take (sunPathSize - 1))

/-- `af_ipcc_open_server`. -/
def afIpccOpenServer (env : OpenEnv) (base : EventBase) (name : CString)
    (receiveCallback : Option Callback) (receiveContext : Context)
    (closeCallback : Option Callback) : Except Trap (Option World) := do
  if ¬ env.base ∨ ¬ env.alloc ∨ env.socket < 0 then
    return none
  let _ ← sunPath name env.sunPathEnd
  if ¬ env.connect then
    return none
  let (err, rc) := afIpcUtilInitRequests env.reqPool env.reqMutex
  if err ≠ 0 then
    return none
  let (e, base) := eventNew .server base
  let base := eventAdd e base
  return some
    { server := some
        { fd := env.socket, flags := 0, receiveCallback := receiveCallback,
          closeCallback := closeCallback, receiveContext := receiveContext,
          event := some e, reqControl := rc }
      base := base, script := [], trace := [] }

end AfIpc.Ipcc
