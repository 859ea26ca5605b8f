/-
  AfIpc.Tools.Program

  `ipc_send` and `ipc_wait` as programs: `main` from the arguments to the exit status,
  over the client library.  The callbacks of the programs make no call of the library,
  so what they do to the variables of the program is a function of the calls that the
  library makes to them.

  A timer of a program that only asks libevent to leave the loop has no other effect,
  and when the loop is left depends on time: here it may be left behind any event.
  The programs do nothing about `SIGPIPE`, which ends a program whose `sendmsg` fails
  with `EPIPE`.
-/

import AfIpc.Ipcc.Client
import AfIpc.Tools.Buffers

namespace AfIpc.Tools

open AfIpc.Lib AfIpc.Rpc AfIpc.Ipc

-- ============================================================================
-- What can go wrong
-- ============================================================================

/-- An access outside an array, a fault of the library, a `free` of what is not an
    allocated block, or the signal. -/
inductive Crash where
  | trap (t : Trap)
  | fault (f : Fault)
  | badFree
  | sigpipe
  deriving DecidableEq, Repr

def ofTrap {α : Type} : Except Trap α → Except Crash α := Except.mapError .trap

def ofFault {α : Type} : Except Fault α → Except Crash α := Except.mapError .fault

-- ============================================================================
-- The parameters of ipc_send
-- ============================================================================

/-- `free`. -/
def Heap.free (base : Word) (heap : Heap) : Except Crash Heap :=
  if heap.blocks.any (fun b => b.base = base) then
    .ok { heap with blocks := heap.blocks.eraseP (fun b => b.base = base) }
  else .error .badFree

/-- `dealloc_params`: the entries and the heap behind it. -/
def deallocParams : List AfRpcParam → Heap → Except Crash (List AfRpcParam × Heap)
  | [], heap => .ok ([], heap)
  | p :: params, heap => do
    if p.base ≠ 0 ∧ p.type &&& typeFlagInteger.setWidth 32 = 0 then
      let heap ← heap.free p.base
      let (params, heap) ← deallocParams params heap
      return (⟨0, 0⟩ :: params, heap)
    let (params, heap) ← deallocParams params heap
    return (p :: params, heap)

/-- The loop of `param_parser` with what it leaves where it gives up: whether it has come
    to the end, and the entries set by then. -/
def parseLoop (malloc : Malloc) : List CString → Parser → Except Trap (Bool × Parser)
  | [], st => .ok (true, st)
  | [s], st => do
    match ← parseOption malloc s none st with
    | none => return (false, st)
    | some st => return (true, st)
  | s :: value :: args, st => do
    match ← parseOption malloc s (some value) st with
    | none => return (false, st)
    | some st => parseLoop malloc args st

/-- `param_parser` with what it leaves in `in_params`. -/
def parse (malloc : Malloc) (argv : List CString) (heap : Heap) : Except Trap (Bool × Parser) := do
  if argv.length % 2 ≠ 0 then
    return (false, ⟨none, [], heap⟩)
  let (ok, st) ← parseLoop malloc (argv.drop 2) ⟨argv[1]?, [], heap⟩
  return (ok && st.name.isSome, st)

/-- `in_params`: the entries that are not set are zero. -/
def inParams (params : List AfRpcParam) : List AfRpcParam :=
  params ++ List.replicate (maxParams - params.length) ⟨0, 0⟩

-- ============================================================================
-- The variables of the programs
-- ============================================================================

/-- What the event loop of a program works on. -/
structure Tool where
  world : Ipcc.World
  /-- `s_server` is not NULL. -/
  sServer : Bool
  received : Received
  /-- The timer that calls `ipc_send_wrapper` has not fired yet. -/
  testEvent : Bool

/-- The state in front of the loop. -/
def Tool.start (world : Ipcc.World) : Tool :=
  ⟨world, true, ⟨List.replicate instrMaxLen 0, 0, false⟩, true⟩

/-- The callbacks of a program: `data` of the call, if it is one that receives. -/
abbrev Delivery := Call → Option (Option (List Byte))

/-- What a call of the library does to the variables: `rxCallback`, or the close
    callback, which sets `s_server` to NULL. -/
def Tool.hear (delivery : Delivery) (t : Tool) (c : Call) : Except Crash Tool :=
  match delivery c with
  | some data => do
    let received ← ofTrap (rxCallback data t.received)
    return { t with received := received }
  | none =>
    match c with
    | .closeCallback 0 _ _ _ => .ok { t with sServer := false }
    | _ => .ok t

/-- The program behind a call or an event of the library that has led to `world`. -/
def Tool.after (delivery : Delivery) (t : Tool) (world : Ipcc.World) : Except Crash Tool :=
  run (Tool.hear delivery) { t with world := world } (world.trace.drop t.world.trace.length)

/-- An event of the library; the callbacks make no calls. -/
def Tool.handle (delivery : Delivery) (t : Tool) (e : Ipcc.ClientEvent) : Except Crash Tool := do
  let world ← ofFault (Ipcc.clientStep t.world e)
  t.after delivery world

-- ============================================================================
-- ipc_send
-- ============================================================================

/-- `ipc_send_rx_callback` is what the request is sent with; behind a timeout its `data`
    is NULL. -/
def ipcSendDelivery : Delivery
  | .responseCallback _ _ status _ payload => some (if status = statusOk then some payload else none)
  | _ => none

def ipcSendRxCallbackPtr : Callback := 1
def onClosePtr : Callback := 2

/-- An event of the loop of `ipc_send`. -/
inductive SendEvent where
  | recv (results : List RecvResult)
  | timeout (event : Nat)
  /-- The timer of `ipc_send_wrapper`. -/
  | test (env : SendEnv)

/-- `EPIPE`: the server has closed the connection. -/
def epipe : Errno := 32

/-- Whether a `sendmsg` among the calls fails. -/
def sendmsgFails (calls : List Call) : Bool :=
  calls.any (fun c => match c with
    | .sendmsg _ _ _ _ ok => !ok
    | _ => false)

/-- `af_ipcc_send_request` with `s_server`, which may be NULL. -/
def Tool.sendRequest (tx : List Byte) (env : SendEnv) (t : Tool) : Except Crash Tool := do
  if t.sServer = false then
    return t
  let (_, world) ← ofFault (Ipcc.afIpccSendRequest tx tx.length (some ipcSendRxCallbackPtr) 0 3000
    env t.world)
  if sendmsgFails (world.trace.drop t.world.trace.length) ∧ env.sendErrno = epipe then
    throw .sigpipe
  t.after ipcSendDelivery world

/-- One turn of the event loop of `ipc_send`. -/
def ipcSendStep (mem : Mem) (debug4 : Bool) (params : List AfRpcParam) (t : Tool) :
    SendEvent → Except Crash Tool
  | .recv results => t.handle ipcSendDelivery (.recv results [])
  | .timeout event => t.handle ipcSendDelivery (.timeout event [])
  | .test env => do
    if t.testEvent = false then
      return t
    let t := { t with testEvent := false }
    match ← ofTrap (ipcSendWrapper mem debug4 params) with
    | none => return t
    | some tx => t.sendRequest tx env

/-- How a program ends: its exit status, what it has printed, and the library behind it,
    if it has opened a connection. -/
structure Outcome where
  retVal : Int
  output : Option (List Byte)
  world : Option Ipcc.World

/-- What is printed of what has been received.  `addr` is where `outBuffer` is. -/
def Tool.output (mem : Mem) (addr : Word) (t : Tool) : Except Crash (Option (List Byte)) :=
  if t.received.dataReceived then
    ofTrap (renderReply (writeMem mem addr t.received.outBuffer) addr t.received.outBuffer
      t.received.outBufferSize)
  else .ok none

/-- Close the connection if it is still there. -/
def Tool.close (t : Tool) : Except Crash Ipcc.World :=
  if t.sServer then ofFault (Ipcc.afIpccClose t.world) else .ok t.world

/-- The end of a program that has printed `output`. -/
def exitWith (output : Option (List Byte)) (world : Ipcc.World) : Outcome :=
  ⟨if output.isSome then 0 else 1, output, some world⟩

/-- `main` of `ipc_send`; `eventBase` is whether there is one, and `events` is what the
    loop handles. -/
def ipcSendMain (malloc : Malloc) (debug4 eventBase : Bool) (env : Ipcc.OpenEnv) (addr : Word)
    (argv : List CString) (heap : Heap) (events : List SendEvent) :
    Except Crash (Outcome × Heap) := do
  let (ok, st) ← ofTrap (parse malloc argv heap)
  if ok = false ∨ st.params.length = 0 then
    let (_, heap) ← deallocParams (inParams st.params) st.heap
    return (⟨1, none, none⟩, heap)
  if eventBase = false then
    let (_, heap) ← deallocParams (inParams st.params) st.heap
    return (⟨1, none, none⟩, heap)
  match ← ofTrap (Ipcc.afIpccOpenServer env ⟨[], 0⟩ (st.name.getD .empty) none 0
    (some onClosePtr)) with
  | none =>
    let (_, heap) ← deallocParams (inParams st.params) st.heap
    return (⟨1, none, none⟩, heap)
  | some world =>
    let t ← run (ipcSendStep st.heap.mem debug4 st.params) (Tool.start world) events
    let output ← t.output st.heap.mem addr
    let (_, heap) ← deallocParams (inParams st.params) st.heap
    let world ← t.close
    return (exitWith output world, heap)

-- ============================================================================
-- ipc_wait
-- ============================================================================

/-- `handle_receive` is the receive callback of the connection. -/
def ipcWaitDelivery : Delivery
  | .receiveCallback _ _ payload _ => some (some payload)
  | _ => none

def handleReceivePtr : Callback := 1
def handleClosePtr : Callback := 2

/-- `-t`. -/
def optionT : List Byte := [45, 116]

/-- The arguments of `ipc_wait`: the server and the timeout in seconds, or none where it
    prints its usage. -/
def ipcWaitArgs : List CString → Option (CString × Int)
  | [_, name] => some (name, 10)
  | [_, name, option, value] => if option.bytes = optionT then some (name, atoi value) else none
  | _ => none

/-- `main` of `ipc_wait`; `events` is what `recv` returns each time that the connection has
    something to read. -/
def ipcWaitMain (mem : Mem) (eventBase : Bool) (env : Ipcc.OpenEnv) (addr : Word)
    (argv : List CString) (events : List (List RecvResult)) : Except Crash Outcome := do
  match ipcWaitArgs argv with
  | none => return ⟨1, none, none⟩
  | some (name, _) =>
    if eventBase = false then
      return ⟨1, none, none⟩
    match ← ofTrap (Ipcc.afIpccOpenServer env ⟨[], 0⟩ name (some handleReceivePtr) 0
      (some handleClosePtr)) with
    | none => return ⟨1, none, none⟩
    | some world =>
      let t ← run (fun t results => t.handle ipcWaitDelivery (.recv results [])) (Tool.start world)
        events
      let output ← t.output mem addr
      let world ← t.close
      return exitWith output world

end AfIpc.Tools
