/-
  AfIpc.Ipc.Receive

  `af_ipc_handle_receive_message` (`af_ipc_common.c`) and the receive loop that
  `on_recv` and `af_ipcc_client_on_recv` share.  Both are written over any state
  `W` of the process around them: a `Receiver` says what one call of the handler
  works on, and `RecvHooks` says how the two loops wrap the handler.

  The callbacks run inside the handler and may change `W` in any way the library
  lets them; whatever the handler holds by pointer is looked up again each time.
-/

import AfIpc.Lib.Run
import AfIpc.Ipc.Requests

namespace AfIpc.Ipc

open AfIpc.Lib

-- ============================================================================
-- What is observed
-- ============================================================================

/-- `SHUT_RD` and `SHUT_RDWR`. -/
inductive ShutHow where
  | rd | rdwr
  deriving DecidableEq, Repr

/-- The library call that a message is sent by. -/
inductive SentBy where
  | request (callback : Option Callback) (context : Context)
  | response
  | unsolicited
  deriving DecidableEq, Repr

/-- What the library does that can be seen from outside it, in order.  `conn` is
    the address of the connection's record, which the callbacks are not told.
    `frame` and `release` are not calls: the handler takes a frame, and a record
    is given back. -/
inductive Call where
  | frame (conn : Nat) (f : Frame)
  | receiveCallback (conn : Nat) (seqNum : BitVec 32) (payload : List Byte) (context : Context)
  | responseCallback (conn : Nat) (req : Request) (status : Int) (seqNum : BitVec 32)
      (payload : List Byte)
  | accept (fd : Int)
  | acceptCallback (cid : BitVec 16)
  | closeCallback (conn : Nat) (status : Int) (cid : BitVec 16) (context : Context)
  | sendmsg (conn : Nat) (fd : Int) (sentBy : SentBy) (packet : Packet) (ok : Bool)
  | shutdown (fd : Int) (how : ShutHow)
  | closeFd (fd : Int)
  | release (ptr : Nat)
  deriving DecidableEq, Repr

/-- The frames taken, in order, each with its connection. -/
def takenOf (trace : List Call) : List (Nat × Frame) :=
  trace.filterMap (fun c => match c with
    | .frame conn f => some (conn, f)
    | _ => none)

@[simp] theorem takenOf_append (t t' : List Call) : takenOf (t ++ t') = takenOf t ++ takenOf t' :=
  List.filterMap_append

/-- The frames taken on one connection. -/
def takenOn (conn : Nat) (trace : List Call) : List Frame :=
  (takenOf trace).filterMap (fun p => if p.1 = conn then some p.2 else none)

/-- The frames sent on a connection, in order. -/
def sentOn (conn : Nat) (trace : List Call) : List Frame :=
  trace.filterMap (fun c => match c with
    | .sendmsg p _ _ packet true => if p = conn then some packet.frame else none
    | _ => none)

/-- The call reports that a connection is closed. -/
def Call.isClose (conn : Nat) : Call → Bool
  | .closeCallback p _ _ _ => p = conn
  | _ => false

/-- The record of a connection is given back. -/
def Call.isRelease (conn : Nat) : Call → Bool
  | .release p => p = conn
  | _ => false

/-- The call is observed where a frame or a timer is handled. -/
def Call.heard : Call → Bool
  | .frame _ _ => true
  | .receiveCallback _ _ _ _ => true
  | .responseCallback _ _ _ _ _ => true
  | _ => false

/-- How often the close callback has been called for a connection. -/
def closesOf (conn : Nat) (trace : List Call) : Nat := trace.countP (Call.isClose conn)

/-- How often the record of a connection has been given back. -/
def releasesOf (conn : Nat) (trace : List Call) : Nat := trace.countP (Call.isRelease conn)

theorem closesOf_append (conn : Nat) (t t' : List Call) :
    closesOf conn (t ++ t') = closesOf conn t + closesOf conn t' := List.countP_append

theorem releasesOf_append (conn : Nat) (t t' : List Call) :
    releasesOf conn (t ++ t') = releasesOf conn t + releasesOf conn t' := List.countP_append

theorem closesOf_concat (conn : Nat) (t : List Call) (c : Call) :
    closesOf conn (t ++ [c]) = closesOf conn t + if c.isClose conn then 1 else 0 := by
  simp only [closesOf, List.countP_append, List.countP_singleton]

theorem releasesOf_concat (conn : Nat) (t : List Call) (c : Call) :
    releasesOf conn (t ++ [c]) = releasesOf conn t + if c.isRelease conn then 1 else 0 := by
  simp only [releasesOf, List.countP_append, List.countP_singleton]

-- ============================================================================
-- The handler
-- ============================================================================

/-- The arguments of `af_ipc_handle_receive_message`, over the state of the
    process.  `table` follows the `req_control` pointer. -/
structure Receiver (W : Type) where
  clientId : BitVec 16
  table : W → Except Fault (ReqControl × EventBase)
  setTable : ReqControl → EventBase → W → Except Fault W
  note : Frame → W → W
  /-- `receiveCallback`, if there is one. -/
  receive : BitVec 32 → List Byte → W → Except Fault W
  /-- The callback of a request, if it has one. -/
  respond : Request → BitVec 32 → List Byte → W → Except Fault W

/-- The body of the loop of `af_ipc_handle_receive_message` for a frame it
    accepts. -/
def handleFrame {W : Type} (R : Receiver W) (f : Frame) (w : W) : Except Fault W := do
  let w := R.note f w
  let seqNum := getSeqId f.seqNum
  if seqNum = 0 ∨ isNewRequest seqNum then
    -- an incoming request or an unsolicited message
    R.receive (deliveredSeqNum R.clientId seqNum) f.payload w
  else
    -- a reply to a request
    let (rc, base) ← R.table w
    match takeResponse seqNum rc base with
    | (none, _, _) => return w
    | (some req, rc, base) => do
      let w ← R.setTable rc base w
      R.respond req seqNum f.payload w

section HandleFrame

variable {W : Type} {R : Receiver W} {f : Frame} {w : W} {rc rc' : ReqControl}
  {base base' : EventBase}
  (hold : ¬ (getSeqId f.seqNum = 0 ∨ isNewRequest (getSeqId f.seqNum) = true))
  (htable : R.table (R.note f w) = .ok (rc, base))

include hold htable

/-- A response to no pending request. -/
theorem handleFrame_unmatched
    (htake : takeResponse (getSeqId f.seqNum) rc base = (none, rc', base')) :
    handleFrame R f w = .ok (R.note f w) := by
  simp only [handleFrame]
  rw [if_neg hold, htable]
  simp only [bind, Except.bind, htake]
  rfl

/-- A response to a pending request. -/
theorem handleFrame_matched {req : Request}
    (htake : takeResponse (getSeqId f.seqNum) rc base = (some req, rc', base')) :
    handleFrame R f w =
      R.setTable rc' base' (R.note f w) >>= R.respond req (getSeqId f.seqNum) f.payload := by
  simp only [handleFrame]
  rw [if_neg hold, htable]
  simp only [bind, Except.bind, htake]

end HandleFrame

/-- The loop of `af_ipc_handle_receive_message`.  `fuel` bounds the iterations,
    each of which advances `pos`. -/
def frameLoop {W : Type} (dispatch : Frame → W → Except Fault W) (buf : List Byte) :
    Nat → Nat → W → Except Fault W
  | 0, _, _ => .error .outOfFuel
  | fuel + 1, pos, w => do
    if ¬ pos < buf.length then
      return w
    -- bad packet; the rest of the chunk is ignored
    if pos + msghdrLen ≥ buf.length then
      return w
    let msghdr := MsgHdr.decode (buf.drop pos)
    if pos + msghdr.len.toNat > buf.length ∨ msghdr.len.toNat < msghdrLen then
      return w
    let payload := (buf.drop (pos + msghdrLen)).take (msghdr.len.toNat - msghdrLen)
    let w ← dispatch ⟨msghdr.seqNum, payload⟩ w
    frameLoop dispatch buf fuel (pos + msghdr.len.toNat) w

/-- `af_ipc_handle_receive_message`; `buf` is what `recv` returned. -/
def afIpcHandleReceiveMessage {W : Type} (R : Receiver W) (buf : List Byte) (w : W) :
    Except Fault W :=
  frameLoop (handleFrame R) buf (buf.length + 1) 0 w

/-- The loop follows the chain of frames: it dispatches the items of the chunk,
    one after the other. -/
theorem frameLoop_eq {W : Type} (dispatch : Frame → W → Except Fault W) (buf : List Byte)
    (fuel pos : Nat) (w : W) (hfuel : buf.length - pos < fuel) :
    frameLoop dispatch buf fuel pos w =
      run (fun w f => dispatch f w) w (frames.items (buf.drop pos)) := by
  induction fuel generalizing pos w with
  | zero => omega
  | succ fuel ih =>
      have hlen : (buf.drop pos).length = buf.length - pos := List.length_drop
      simp only [frameLoop]
      by_cases hpos : pos < buf.length
      · rw [if_neg (not_not.mpr hpos)]
        by_cases hshort : pos + msghdrLen ≥ buf.length
        · have hnone : frames.head (buf.drop pos) = none := by
            show Frame.head (buf.drop pos) = none
            rw [Frame.head, if_pos (by omega)]
          rw [if_pos hshort, frames.items_of_none hnone]
          rfl
        · rw [if_neg hshort]
          by_cases hbad : pos + (MsgHdr.decode (buf.drop pos)).len.toNat > buf.length ∨
              (MsgHdr.decode (buf.drop pos)).len.toNat < msghdrLen
          · have hnone : frames.head (buf.drop pos) = none := by
              show Frame.head (buf.drop pos) = none
              simp only [Frame.head]
              rw [if_neg (by omega), if_pos (by omega)]
            rw [if_pos hbad, frames.items_of_none hnone]
            rfl
          · -- a frame: dispatch it and go on behind it
            rw [if_neg hbad]
            have hsome : frames.head (buf.drop pos) =
                some ⟨(MsgHdr.decode (buf.drop pos)).seqNum,
                  (buf.drop (pos + msghdrLen)).take
                    ((MsgHdr.decode (buf.drop pos)).len.toNat - msghdrLen)⟩ := by
              show Frame.head (buf.drop pos) = _
              simp only [Frame.head]
              rw [if_neg (by omega), if_neg (by omega), List.drop_drop]
            have hsize : frames.size ⟨(MsgHdr.decode (buf.drop pos)).seqNum,
                (buf.drop (pos + msghdrLen)).take
                  ((MsgHdr.decode (buf.drop pos)).len.toNat - msghdrLen)⟩ =
                (MsgHdr.decode (buf.drop pos)).len.toNat :=
              (Frame.head_eq_some hsome).2.1.symm
            have hhdr : msghdrLen = 8 := rfl
            rw [frames.items_of_some hsome, run_cons, hsize]
            cases hdispatch : dispatch ⟨(MsgHdr.decode (buf.drop pos)).seqNum,
                (buf.drop (pos + msghdrLen)).take
                  ((MsgHdr.decode (buf.drop pos)).len.toNat - msghdrLen)⟩ w with
            | error e => rfl
            | ok w' =>
                have hnext := ih (pos + (MsgHdr.decode (buf.drop pos)).len.toNat) w' (by omega)
                rw [← List.drop_drop] at hnext
                exact hnext
      · rw [if_pos hpos, List.drop_eq_nil_of_le (by omega), Splitter.items_nil]
        rfl

theorem afIpcHandleReceiveMessage_eq {W : Type} (R : Receiver W) (buf : List Byte) (w : W) :
    afIpcHandleReceiveMessage R buf w =
      run (fun w f => handleFrame R f w) w (frames.items buf) :=
  frameLoop_eq (handleFrame R) buf (buf.length + 1) 0 w (by omega)

-- ============================================================================
-- The receive loop
-- ============================================================================

/-- What one `recv` returns: bytes, 0, or -1 with `errno`. -/
inductive RecvResult where
  | data (bytes : List Byte)
  | eof
  | error (errno : Errno)
  deriving DecidableEq, Repr

/-- The chunks that `recv` returns before it returns anything else. -/
def chunksOf : List RecvResult → List (List Byte)
  | .data bytes :: rs => bytes :: chunksOf rs
  | _ => []

@[simp] theorem chunksOf_data (chunks : List (List Byte)) :
    chunksOf (chunks.map .data) = chunks := by
  induction chunks with
  | nil => rfl
  | cons bytes chunks ih => rw [List.map_cons, chunksOf, ih]

/-- The entries of a script that callbacks can come to: one for each frame that is
    taken. -/
def entriesFor {α : Type} (results : List RecvResult) (script : List α) : List α :=
  script.take ((chunksOf results).flatMap frames.items).length

/-- The entries that are left when the first has been used. -/
theorem mem_take_of_mem_tail {α : Type} {script : List α} {x : α} {n : Nat}
    (h : x ∈ script.tail.take n) : x ∈ script.take (n + 1) := by
  have htail : (script.take (n + 1)).tail = script.tail.take n :=
    List.tail_take_eq_take_tail script (n + 1)
  rw [← htail] at h
  exact List.mem_of_mem_tail h

/-- Bytes are all that `recv` returns before the socket would block. -/
def OnlyData (results : List RecvResult) : Prop := ∀ r ∈ results, ∃ bytes, r = .data bytes

theorem onlyData_data (chunks : List (List Byte)) : OnlyData (chunks.map .data) := by
  intro r hr
  obtain ⟨bytes, _, rfl⟩ := List.mem_map.mp hr
  exact ⟨bytes, rfl⟩

/-- What `on_recv` and `af_ipcc_client_on_recv` do around the handler. -/
structure RecvHooks (W : Type) where
  /-- Set the in-receive flag and evaluate the handler's arguments. -/
  enter : W → Except Fault (Receiver W × W)
  /-- Clear the flag, and see whether the connection is marked for shutdown. -/
  leave : W → Except Fault (Bool × W)
  close : Int → W → Except Fault W
  /-- The errors that end the loop without closing the connection. -/
  retry : Errno → Bool

/-- The loop of `on_recv` and `af_ipcc_client_on_recv` over what `recv` returns.
    Behind the last result the socket would block. -/
def recvLoop {W : Type} (H : RecvHooks W) : List RecvResult → W → Except Fault W
  | [], w => .ok w
  | .eof :: _, w => H.close statusError w
  | .error e :: _, w => if H.retry e then .ok w else H.close statusError w
  | .data bytes :: rs, w => do
    let (R, w) ← H.enter w
    let w ← afIpcHandleReceiveMessage R bytes w
    let (marked, w) ← H.leave w
    if marked then H.close statusOk w else recvLoop H rs w

/-- **The rule of the receive loop**: what the hooks and the handling of a frame keep, the
    loop keeps, whatever `recv` returns. -/
theorem recvLoop_keeps {W : Type} {H : RecvHooks W} {bad : Fault → Prop} {I : W → Prop}
    (henter : ∀ w, I w → Safe bad (fun out : Receiver W × W =>
      I out.2 ∧ ∀ f v, I v → Safe bad I (handleFrame out.1 f v)) (H.enter w))
    (hleave : ∀ w, I w → Safe bad (fun out : Bool × W => I out.2) (H.leave w))
    (hclose : ∀ status w, I w → Safe bad I (H.close status w)) (results : List RecvResult)
    {w : W} (hw : I w) : Safe bad I (recvLoop H results w) := by
  induction results generalizing w with
  | nil => exact hw
  | cons r rs ih =>
      cases r with
      | eof => exact hclose statusError w hw
      | error e =>
          simp only [recvLoop]
          split_ifs
          · exact hw
          · exact hclose statusError w hw
      | data bytes =>
          simp only [recvLoop]
          refine (henter w hw).bind (fun out hout => ?_)
          obtain ⟨R, v⟩ := out
          obtain ⟨hv, hframe⟩ := hout
          rw [afIpcHandleReceiveMessage_eq]
          refine Safe.bind (Safe.run (fun u f _ hu => hframe f u hu) hv) (fun u hu => ?_)
          refine (hleave u hu).bind (fun out hout => ?_)
          split_ifs
          · exact hclose statusOk out.2 hout
          · exact ih hout

end AfIpc.Ipc
