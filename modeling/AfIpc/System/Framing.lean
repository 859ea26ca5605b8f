/-
  AfIpc.System.Framing

  Messages over a stream socket.  `af_ipc_send` puts each on the stream as one
  frame, and `recv` gives the stream back in pieces.  Neither receive loop keeps
  anything from one piece to the next: a frame that a piece ends in is dropped,
  and the next piece is read as if a frame began there.
-/

import AfIpc.Ipc.Sizes
import AfIpc.Ipcs.InOrder
import AfIpc.Ipcc.InOrder

namespace AfIpc.System

open AfIpc.Lib AfIpc.Ipc

-- ============================================================================
-- The stream
-- ============================================================================

/-- The arguments of `af_ipc_send`, for a buffer given with its length. -/
structure Message where
  rc : Option ReqControl
  base : EventBase
  seqNum : BitVec 32
  txBuffer : List Byte
  callback : Option Callback
  context : Context
  timeoutMs : Int
  env : SendEnv

namespace Message

def send (m : Message) : SendResult :=
  afIpcSend m.rc m.base m.seqNum m.txBuffer m.txBuffer.length m.callback m.context m.timeoutMs m.env

/-- The call returns 0, for a payload that is not empty and whose length is an `int`. -/
structure Accepted (m : Message) : Prop where
  ret : m.send.ret = 0
  nonempty : m.txBuffer ≠ []
  int : m.txBuffer.length < 2 ^ 31

/-- What the call puts on the stream. -/
def bytes (m : Message) : List Byte := (m.send.packet.map Packet.bytes).getD []

/-- The message as a frame: the number it is sent with, and its payload. -/
def frame (m : Message) : Frame := ⟨(m.send.packet.map (·.hdr.seqNum)).getD 0, m.txBuffer⟩

end Message

/-- `recv` returns the stream in pieces of 1 to `AF_IPC_MAX_MSGLEN` bytes. -/
structure Cut (chunks : List (List Byte)) (stream : List Byte) : Prop where
  flatten : chunks.flatten = stream
  sizes : ∀ c ∈ chunks, 1 ≤ c.length ∧ c.length ≤ maxMsglen

/-- No piece begins or ends inside a frame. -/
def Aligned (chunks : List (List Byte)) : Prop :=
  ∀ c ∈ chunks, ∃ fs : List Frame, (∀ f ∈ fs, f.Deliverable) ∧ c = fs.flatMap Frame.encode

section Stream

/-- A send that returns 0 has sent its packet. -/
theorem afIpcSend_packet {rc : Option ReqControl} {base : EventBase} {seqNum : BitVec 32}
    {txBuffer : List Byte} {txBufferSize : Int} {callback : Option Callback} {context : Context}
    {timeoutMs : Int} {env : SendEnv}
    (h : (afIpcSend rc base seqNum txBuffer txBufferSize callback context timeoutMs env).ret = 0) :
    oversize txBufferSize = false ∧ ∃ num,
      (afIpcSend rc base seqNum txBuffer txBufferSize callback context timeoutMs env).packet =
        some (makePacket num txBuffer txBufferSize) := by
  have hs : sendSucceeds rc txBufferSize timeoutMs env = true := by
    rw [afIpcSend_ret] at h
    by_contra hno
    rw [if_neg hno] at h
    cases h
  obtain ⟨hover, hmsg⟩ := sendSucceeds_fits hs
  refine ⟨hover, afIpcSend_passes hover (fun ht => ?_)⟩
  have hpos : ¬ timeoutMs ≤ 0 := by omega
  have hregistered : (rc.isSome && env.alloc && env.timer) = true := by
    simpa [sendSucceeds, hover, hmsg, hpos] using hs
  simpa [and_assoc] using hregistered

variable {m : Message}

/-- An accepted message is a frame that a receiver can take whole. -/
theorem Message.Accepted.frame_spec (h : m.Accepted) :
    m.bytes = m.frame.encode ∧ m.frame.Deliverable := by
  obtain ⟨hover, num, hpacket⟩ := afIpcSend_packet h.ret
  have hwhole : (makePacket num m.txBuffer m.txBuffer.length).Whole :=
    makePacket_whole h.nonempty h.int hover
  have hframe : m.frame = (makePacket num m.txBuffer m.txBuffer.length).frame := by
    rw [Message.frame, Message.send, hpacket]
    show Frame.mk num m.txBuffer = ⟨num, _⟩
    exact congrArg (Frame.mk num) hwhole.payload.symm
  rw [hframe, Message.bytes, Message.send, hpacket]
  exact ⟨hwhole.bytes, makePacket_deliverable hover hwhole⟩

variable {ms : List Message} {chunks : List (List Byte)}

theorem stream_eq (h : ∀ m ∈ ms, m.Accepted) :
    ms.flatMap Message.bytes = (ms.map Message.frame).flatMap Frame.encode := by
  rw [List.flatMap_map]
  exact List.flatMap_congr (fun m hm => (h m hm).frame_spec.1)

/-- **The frames that are taken from the pieces** are the messages exactly if no
    cut falls inside a frame. -/
theorem items_eq_iff (h : ∀ m ∈ ms, m.Accepted) (hcut : Cut chunks (ms.flatMap Message.bytes)) :
    chunks.flatMap frames.items = ms.map Message.frame ↔ Aligned chunks := by
  have hgood : ∀ f ∈ ms.map Message.frame, f.Deliverable := by
    intro f hf
    obtain ⟨m, hm, rfl⟩ := List.mem_map.mp hf
    exact (h m hm).frame_spec.2
  exact frames_encodes.flatMap_items_eq_iff_forall hgood (hcut.flatten.trans (stream_eq h))

end Stream

-- ============================================================================
-- Receiving
-- ============================================================================

/-- What one call of the receive loop is given: the pieces that `recv` returns, and
    what the callbacks do. -/
structure Reading (Action : Type) where
  chunks : List (List Byte)
  script : List (List Action)

def Reading.results {Action : Type} (r : Reading Action) : List RecvResult := r.chunks.map .data

/-- `on_recv` for the client at `ptr`. -/
def serverReads (ptr : Nat) (w : Ipcs.World) (r : Reading Ipcs.Action) : Except Fault Ipcs.World :=
  Ipcs.onRecv ptr r.results { w with script := r.script }

/-- `af_ipcc_client_on_recv`. -/
def clientReads (w : Ipcc.World) (r : Reading Ipcc.Action) : Except Fault Ipcc.World :=
  Ipcc.afIpccClientOnRecv r.results { w with script := r.script }

/-- The frames `fs` of a connection are dispatched, once each and in order, and no
    others.  The receive callback, if the connection was opened with one, is handed the
    requests and the unsolicited messages among them; and the handling is steps of the
    endpoint, in which a response completes the request that waits for it, if one does,
    and calls its callback. -/
structure Dispatches (conn : Nat) (receiveCallback : Option Callback) (fs : List Frame)
    (h h' : Endpoint) : Prop where
  taken : takenOf h'.trace = takenOf h.trace ++ fs.map (Prod.mk conn)
  received : receiveCallback.isSome = true →
    receivedOn conn h'.trace = receivedOn conn h.trace ++ messagesIn fs
  steps : h.Steps h'

/-- The pieces arrive at the server from the client `id`, in one call of `on_recv`
    or in several: as long as no callback ends the connection, the frames `fs` are
    dispatched. -/
def ServerDelivers (receiveCallback : Option Callback) (w : Ipcs.World)
    (id : Nat × BitVec 16 × Int) (chunks : List (List Byte)) (fs : List Frame) : Prop :=
  ∀ rs : List (Reading Ipcs.Action), rs.flatMap Reading.chunks = chunks →
    (∀ r ∈ rs, Ipcs.Spares (entriesFor r.results r.script) id) →
    ∃ w', run (serverReads id.1) w rs = .ok w' ∧
      Dispatches id.1 receiveCallback fs w.endpoint w'.endpoint

/-- The same of a client. -/
def ClientDelivers (receiveCallback : Option Callback) (w : Ipcc.World) (chunks : List (List Byte))
    (fs : List Frame) : Prop :=
  ∀ rs : List (Reading Ipcc.Action), rs.flatMap Reading.chunks = chunks →
    (∀ r ∈ rs, Ipcc.Spares (entriesFor r.results r.script)) →
    ∃ w', run clientReads w rs = .ok w' ∧
      Dispatches 0 receiveCallback fs w.endpoint w'.endpoint

section Receiving

variable {receiveCallback : Option Callback} {chunks : List (List Byte)} {fs : List Frame}

/-- What has been taken has been handed over before and behind. -/
theorem received_of_heeded {conn : Nat} {t t' : List Call} (h : Heeded t) (h' : Heeded t')
    (htaken : takenOf t' = takenOf t ++ fs.map (Prod.mk conn)) :
    receivedOn conn t' = receivedOn conn t ++ messagesIn fs := by
  have hon : takenOn conn t' = takenOn conn t ++ fs := by
    rw [takenOn, htaken, List.filterMap_append, List.filterMap_map]
    congr 1
    simp
  rw [h' conn, h conn, hon, messagesIn_append]

theorem serverReads_taken {w : Ipcs.World} {id : Nat × BitVec 16 × Int} (hi : Ipcs.Idle w)
    (hid : id ∈ w.idents) {rs : List (Reading Ipcs.Action)}
    (hspares : ∀ r ∈ rs, Ipcs.Spares (entriesFor r.results r.script) id) :
    ∃ w', run (serverReads id.1) w rs = .ok w' ∧ takenOf w'.trace = takenOf w.trace ++
      ((rs.flatMap Reading.chunks).flatMap frames.items).map (Prod.mk id.1) ∧
      w.endpoint.Steps w'.endpoint := by
  induction rs generalizing w with
  | nil => exact ⟨w, rfl, (List.append_nil _).symm, .refl⟩
  | cons r rs ih =>
      have hrecv := Ipcs.onRecv_spec (S := True) (hi.scripted r.script) hid r.results
        (fun _ => hspares r List.mem_cons_self)
      obtain ⟨v, hv, hiv, hevolves⟩ := hrecv.exists_ok
      have hidv : id ∈ v.idents := hevolves.keeps id ⟨rfl, onlyData_data r.chunks⟩ hid
      obtain ⟨w', hrun, htaken, hsteps⟩ := ih hiv hidv
        (fun r' hr' => hspares r' (List.mem_cons_of_mem r hr'))
      have hfirst : takenOf v.trace =
          takenOf w.trace ++ (r.chunks.flatMap frames.items).map (Prod.mk id.1) := by
        have htakenv := hevolves.taken
        rw [Reading.results, chunksOf_data] at htakenv
        exact htakenv
      have hstepsv : w.endpoint.Steps v.endpoint := hevolves.steps
      refine ⟨w', ?_, ?_, hstepsv.trans hsteps⟩
      · have hstep : serverReads id.1 w r = .ok v := hv
        rw [run_cons, hstep]
        exact hrun
      · rw [htaken, hfirst, List.flatMap_cons, List.flatMap_append, List.map_append,
          List.append_assoc]

theorem clientReads_taken {w : Ipcc.World} (hw : Ipcc.Sane w)
    (halive : Ipcc.OpenWith (fun f => f = 0) w) {rs : List (Reading Ipcc.Action)}
    (hspares : ∀ r ∈ rs, Ipcc.Spares (entriesFor r.results r.script)) :
    ∃ w', run clientReads w rs = .ok w' ∧ takenOf w'.trace = takenOf w.trace ++
      ((rs.flatMap Reading.chunks).flatMap frames.items).map (Prod.mk 0) ∧
      w.endpoint.Steps w'.endpoint := by
  induction rs generalizing w with
  | nil => exact ⟨w, rfl, (List.append_nil _).symm, .refl⟩
  | cons r rs ih =>
      have hopen : Ipcc.OpenWith (fun f => f = 0) { w with script := r.script } :=
        ⟨halive.server, halive.closes, halive.releases⟩
      have hrecv := Ipcc.onRecv_spec (S := True) (hw.scripted r.script) hopen r.results
        (fun _ => hspares r List.mem_cons_self)
      obtain ⟨v, hv, hreceived⟩ := hrecv.exists_ok
      have halivev := hreceived.alive trivial (onlyData_data r.chunks)
      obtain ⟨gs, hevolves, hgs⟩ := hreceived.evolves
      obtain ⟨w', hrun, htaken, hsteps⟩ := ih hreceived.sane halivev
        (fun r' hr' => hspares r' (List.mem_cons_of_mem r hr'))
      have hfirst : takenOf v.trace =
          takenOf w.trace ++ (r.chunks.flatMap frames.items).map (Prod.mk 0) := by
        have htakenv := hevolves.taken
        rw [hgs trivial, Reading.results, chunksOf_data] at htakenv
        exact htakenv
      have hstepsv : w.endpoint.Steps v.endpoint := hevolves.steps
      refine ⟨w', ?_, ?_, hstepsv.trans hsteps⟩
      · have hstep : clientReads w r = .ok v := hv
        rw [run_cons, hstep]
        exact hrun
      · rw [htaken, hfirst, List.flatMap_cons, List.flatMap_append, List.map_append,
          List.append_assoc]

/-- Every call of the receive loop leaves a server that attends attending. -/
theorem serverReads_attends {w w' : Ipcs.World} (h : Ipcs.Attends w) {ptr : Nat}
    {rs : List (Reading Ipcs.Action)} (hrun : run (serverReads ptr) w rs = .ok w') :
    Ipcs.Attends w' := by
  have hran : Safe Ipcs.anyFault Ipcs.Attends (run (serverReads ptr) w rs) := by
    refine Safe.run (fun v r _ hv => ?_) h
    have hscripted : Ipcs.Attends { v with script := r.script } := ⟨hv.listens, hv.heeded⟩
    exact Ipcs.onRecv_attends hscripted ptr r.results
  exact hran.of_ok hrun

theorem clientReads_attends {w w' : Ipcc.World} (h : Ipcc.Attends w)
    {rs : List (Reading Ipcc.Action)} (hrun : run clientReads w rs = .ok w') : Ipcc.Attends w' := by
  have hran : Safe Ipcc.Foreign Ipcc.Attends (run clientReads w rs) := by
    refine Safe.run (fun v r _ hv => ?_) h
    have hscripted : Ipcc.Attends { v with script := r.script } := ⟨hv.listens, hv.heeded⟩
    exact Ipcc.onRecv_attends hscripted r.results
  exact hran.of_ok hrun

/-- The frames that a connection has taken behind what it had. -/
theorem taken_cancel {conn : Nat} {t : List (Nat × Frame)} {gs : List Frame}
    (h : t ++ gs.map (Prod.mk conn) = t ++ fs.map (Prod.mk conn)) : gs = fs := by
  have hmap := List.append_cancel_left h
  exact List.map_injective_iff.mpr (Prod.mk_right_injective conn) hmap

theorem serverDelivers_iff {w : Ipcs.World} {id : Nat × BitVec 16 × Int} (hi : Ipcs.Idle w)
    (hid : id ∈ w.idents)
    (hattends : receiveCallback.isSome = true → Ipcs.Attends w) :
    ServerDelivers receiveCallback w id chunks fs ↔ chunks.flatMap frames.items = fs := by
  refine ⟨?_, ?_⟩
  · intro h
    -- all in one call, and no callback does anything
    obtain ⟨w', hrun, hdispatches⟩ := h [⟨chunks, []⟩] (List.append_nil chunks) (by
      intro r hr
      obtain rfl := List.mem_singleton.mp hr
      exact fun actions hactions => absurd (List.mem_of_mem_take hactions) List.not_mem_nil)
    obtain ⟨v, hv, htakenv, -⟩ := @serverReads_taken w id hi hid [⟨chunks, []⟩] (by
      intro r hr
      obtain rfl := List.mem_singleton.mp hr
      exact fun actions hactions => absurd (List.mem_of_mem_take hactions) List.not_mem_nil)
    obtain rfl : w' = v := Except.ok.inj (hrun.symm.trans hv)
    have hboth := htakenv.symm.trans hdispatches.taken
    rw [List.flatMap_cons, List.flatMap_nil, List.append_nil] at hboth
    exact taken_cancel hboth
  · rintro rfl rs rfl hspares
    obtain ⟨w', hrun, htaken, hsteps⟩ := serverReads_taken hi hid hspares
    refine ⟨w', hrun, htaken, fun hlistens => ?_, hsteps⟩
    have hbefore := hattends hlistens
    exact received_of_heeded hbefore.heeded (serverReads_attends hbefore hrun).heeded htaken

theorem clientDelivers_iff {w : Ipcc.World} (hw : Ipcc.Sane w)
    (halive : Ipcc.OpenWith (fun f => f = 0) w) 
    (hattends : receiveCallback.isSome = true → Ipcc.Attends w) :
    ClientDelivers receiveCallback w chunks fs ↔ chunks.flatMap frames.items = fs := by
  refine ⟨?_, ?_⟩
  · intro h
    obtain ⟨w', hrun, hdispatches⟩ := h [⟨chunks, []⟩] (List.append_nil chunks) (by
      intro r hr
      obtain rfl := List.mem_singleton.mp hr
      exact fun actions hactions => absurd (List.mem_of_mem_take hactions) List.not_mem_nil)
    obtain ⟨v, hv, htakenv, -⟩ := @clientReads_taken w hw halive [⟨chunks, []⟩] (by
      intro r hr
      obtain rfl := List.mem_singleton.mp hr
      exact fun actions hactions => absurd (List.mem_of_mem_take hactions) List.not_mem_nil)
    obtain rfl : w' = v := Except.ok.inj (hrun.symm.trans hv)
    have hboth := htakenv.symm.trans hdispatches.taken
    rw [List.flatMap_cons, List.flatMap_nil, List.append_nil] at hboth
    exact taken_cancel hboth
  · rintro rfl rs rfl hspares
    obtain ⟨w', hrun, htaken, hsteps⟩ := clientReads_taken hw halive hspares
    refine ⟨w', hrun, htaken, fun hlistens => ?_, hsteps⟩
    have hbefore := hattends hlistens
    exact received_of_heeded hbefore.heeded (clientReads_attends hbefore hrun).heeded htaken

end Receiving

-- ============================================================================
-- The receivers
-- ============================================================================

/-- A server after a run, with a connected client. -/
structure ServerSide where
  env : Ipcs.OpenEnv
  base : EventBase
  acceptCallback : Option Callback
  acceptContext : Context
  receiveCallback : Option Callback
  closeCallback : Option Callback
  w₀ : Ipcs.World
  events : List Ipcs.ServerEvent
  w : Ipcs.World
  id : Nat × BitVec 16 × Int
  bare : Ipcs.BareBase base
  opened : Ipcs.afIpcsOpen env base acceptCallback acceptContext receiveCallback closeCallback =
    some w₀
  ran : run Ipcs.serverStep w₀ events = .ok w
  connected : id ∈ w.idents

/-- A client after a run, still connected. -/
structure ClientSide where
  env : Ipcc.OpenEnv
  base : EventBase
  name : CString
  receiveCallback : Option Callback
  receiveContext : Context
  closeCallback : Option Callback
  w₀ : Ipcc.World
  events : List Ipcc.ClientEvent
  w : Ipcc.World
  s : Ipcc.Server
  bare : base.events = []
  opened : Ipcc.afIpccOpenServer env base name receiveCallback receiveContext closeCallback =
    .ok (some w₀)
  ran : run Ipcc.clientStep w₀ events = .ok w
  connected : w.server = some s

theorem ServerSide.idle (side : ServerSide) : Ipcs.Idle side.w := by
  have hrun := Ipcs.serverRun_spec (Ipcs.idle_of_open side.bare side.opened) side.events
  exact (hrun.of_ok side.ran).1

theorem ClientSide.open_ (side : ClientSide) :
    Ipcc.Sane side.w ∧ Ipcc.OpenWith (fun f => f = 0) side.w := by
  obtain ⟨hq, hw⟩ := Ipcc.sane_of_open side.bare side.opened
  have hran := (Ipcc.clientRun_spec hq hw side.events).of_ok side.ran
  refine ⟨hran.sane, ?_⟩
  rcases hran.quiet with hopen | hfreed
  · exact hopen
  · have hnone := hfreed.server
    rw [side.connected] at hnone
    cases hnone

/-- A server that was opened with a receive callback has handed over what it has taken. -/
theorem ServerSide.attends (side : ServerSide) (hlistens : side.receiveCallback.isSome = true) :
    Ipcs.Attends side.w := by
  have hstart : Ipcs.Idle side.w₀ ∧ Ipcs.Attends side.w₀ := by
    refine ⟨Ipcs.idle_of_open side.bare side.opened, ?_⟩
    rw [Ipcs.opened_eq side.opened]
    exact ⟨hlistens, fun _ => rfl⟩
  have hran : Safe Ipcs.anyFault (fun w => Ipcs.Idle w ∧ Ipcs.Attends w)
      (run Ipcs.serverStep side.w₀ side.events) := by
    refine Safe.run (fun v e _ hv => ?_) hstart
    have hidle := Ipcs.serverStep_spec hv.1 e
    have hattends := Ipcs.serverStep_attends hv.1 hv.2 e
    cases hstep : Ipcs.serverStep v e with
    | error f => exact not_false
    | ok w => exact ⟨(hidle.of_ok hstep).1, hattends.of_ok hstep⟩
  exact (hran.of_ok side.ran).2

theorem ClientSide.attends (side : ClientSide) (hlistens : side.receiveCallback.isSome = true) :
    Ipcc.Attends side.w := by
  have hstart : Ipcc.Attends side.w₀ := by
    rw [(Ipcc.opened_eq side.opened).2]
    refine ⟨fun s hs => ?_, fun _ => rfl⟩
    obtain rfl := Option.some.inj hs
    exact hlistens
  exact (Safe.run (fun _ e _ hv => Ipcc.clientStep_attends hv e) hstart).of_ok side.ran

/-- **The framing of the stream depends on how it is cut.**  For any accepted
    messages and any cut of their stream into pieces, from any state in which the
    receiver is connected: the server, and so a client, dispatches exactly the
    messages that were sent if and only if no cut falls inside a frame. -/
theorem framing_iff {ms : List Message} (h : ∀ m ∈ ms, m.Accepted) {chunks : List (List Byte)}
    (hcut : Cut chunks (ms.flatMap Message.bytes)) (server : ServerSide) (client : ClientSide) :
    (ServerDelivers server.receiveCallback server.w server.id chunks (ms.map Message.frame) ↔
        Aligned chunks) ∧
      (ClientDelivers client.receiveCallback client.w chunks (ms.map Message.frame) ↔
        Aligned chunks) := by
  have hitems := items_eq_iff h hcut
  obtain ⟨hsane, halive⟩ := client.open_
  refine ⟨?_, ?_⟩
  · rw [serverDelivers_iff server.idle server.connected server.attends, hitems]
  · rw [clientDelivers_iff hsane halive client.attends, hitems]

/-- A server that has accepted one client. -/
def oneAccepted : ServerSide where
  env := .good
  base := ⟨[], 0⟩
  acceptCallback := some 1
  acceptContext := 0
  receiveCallback := some 2
  closeCallback := some 3
  w₀ := { server := ⟨3, some 0, false, [], 0, 0, some 1, 0, some 2, some 3⟩
          base := ⟨[⟨0, .server, true⟩], 1⟩, script := [], trace := [] }
  events := [.accept (.good 4) []]
  w := { server := ⟨3, some 0, false, [⟨1, 4, 1, some 2, ⟨0, true, []⟩, 0, 0⟩], 1, 0, some 1, 0,
            some 2, some 3⟩
         base := ⟨[⟨2, .client 1, true⟩, ⟨0, .server, true⟩], 3⟩, script := []
         trace := [.accept 4, .acceptCallback 1] }
  id := (1, 1, 4)
  bare := fun _ he => absurd he List.not_mem_nil
  opened := rfl
  ran := rfl
  connected := List.mem_singleton_self _

/-- A client that has just been opened. -/
def justOpened : ClientSide where
  env := ⟨true, true, 3, true, true, 0, 0⟩
  base := ⟨[], 0⟩
  name := .empty
  receiveCallback := some 1
  receiveContext := 0
  closeCallback := some 2
  w₀ := Ipcc.openClient
  events := []
  w := Ipcc.openClient
  s := ⟨3, 0, some 1, some 2, 0, some 0, ⟨0, true, []⟩⟩
  bare := rfl
  opened := Ipcc.openClient_opens
  ran := rfl
  connected := rfl

/-- A request with the payload 7, and an unsolicited message with the payload 8. -/
def aRequest : Message := ⟨some ReqControl.zero, ⟨[], 0⟩, 0, [7], some 1, 0, 1000, .good⟩
def aMessage : Message := ⟨none, ⟨[], 0⟩, 0, [8], none, 0, 0, .good⟩

theorem accepted_both : ∀ m ∈ [aRequest, aMessage], m.Accepted := by
  intro m hm
  rcases List.mem_cons.mp hm with rfl | hm
  · exact ⟨rfl, by decide, by decide⟩
  · rw [List.mem_singleton.mp hm]
    exact ⟨rfl, by decide, by decide⟩

/-- Both in one piece. -/
theorem framing_iff_one_piece :
    (ServerDelivers oneAccepted.receiveCallback oneAccepted.w oneAccepted.id
        [[aRequest, aMessage].flatMap Message.bytes] ([aRequest, aMessage].map Message.frame) ↔
      Aligned [[aRequest, aMessage].flatMap Message.bytes]) ∧
    (ClientDelivers justOpened.receiveCallback justOpened.w
        [[aRequest, aMessage].flatMap Message.bytes] ([aRequest, aMessage].map Message.frame) ↔
      Aligned [[aRequest, aMessage].flatMap Message.bytes]) := by
  apply framing_iff accepted_both
  refine ⟨List.append_nil _, fun c hc => ?_⟩
  rw [List.mem_singleton.mp hc]
  exact ⟨by decide, by decide⟩

/-- The header of a message comes in one piece and its payload in the next: the
    message is lost on either side. -/
theorem cut_message_lost :
    Cut [aMessage.bytes.take 8, aMessage.bytes.drop 8] ([aMessage].flatMap Message.bytes) ∧
      ¬ ServerDelivers oneAccepted.receiveCallback oneAccepted.w oneAccepted.id
        [aMessage.bytes.take 8, aMessage.bytes.drop 8] ([aMessage].map Message.frame) ∧
      ¬ ClientDelivers justOpened.receiveCallback justOpened.w
        [aMessage.bytes.take 8, aMessage.bytes.drop 8] ([aMessage].map Message.frame) := by
  have hhead : frames.items (aMessage.bytes.take 8) = [] := frames.items_of_none (by rfl)
  have htail : frames.items (aMessage.bytes.drop 8) = [] := frames.items_of_none (by rfl)
  have hlost : [aMessage.bytes.take 8, aMessage.bytes.drop 8].flatMap frames.items ≠
      [aMessage].map Message.frame := by
    rw [List.flatMap_cons, List.flatMap_cons, hhead, htail]
    exact List.cons_ne_nil _ _ ∘ Eq.symm
  obtain ⟨hsane, halive⟩ := justOpened.open_
  refine ⟨⟨by decide, by decide⟩, ?_, ?_⟩
  · rw [serverDelivers_iff oneAccepted.idle oneAccepted.connected oneAccepted.attends]
    exact hlost
  · rw [clientDelivers_iff hsane halive justOpened.attends]
    exact hlost

end AfIpc.System
