/-
  AfIpc.Ipcs.Refines

  The server is an endpoint: each of its functions comes down to steps of one.
  `Evolves` says so of a call, and with it which frames were taken meanwhile and
  which clients are still connected behind it.  A call of the application ends
  a connection only if it closes it or its send fails (`Action.releases`).
-/

import AfIpc.Ipc.Correlation
import AfIpc.Ipcs.Server

namespace AfIpc.Ipcs

open AfIpc.Lib AfIpc.Ipc

-- ============================================================================
-- The server as an endpoint
-- ============================================================================

def Client.conn (c : Client) : Conn := ⟨c.ptr, c.cid, c.recvEvent, c.reqControl⟩

/-- What a client keeps as long as it is connected. -/
def Client.ident (c : Client) : Nat × BitVec 16 × Int := (c.ptr, c.cid, c.clientFd)

namespace World

def endpoint (w : World) : Endpoint where
  conns := w.server.clients.map Client.conn
  lastCid := w.server.lastCid
  base := w.base
  trace := w.trace

/-- The mutex is held. -/
def locked (w : World) : World := { w with server := { w.server with clntMutex := true } }

/-- The clients that are connected. -/
def idents (w : World) : List (Nat × BitVec 16 × Int) := w.server.clients.map Client.ident

end World

/-- The calls of `close_client`. -/
def closeCalls (status : Int) (c : Client) (closeCallback : Option Callback) : List Call :=
  [.shutdown c.clientFd .rd, .release c.ptr, .closeFd c.clientFd] ++
    if status ≠ statusDontCallCallback ∧ closeCallback.isSome then
      [.closeCallback c.ptr status c.cid c.clientContext] else []

/-- What `close_client` leaves of the record `c`. -/
def World.closed (w : World) (status : Int) (c : Client) : World where
  server := { w.server with
    clients := w.server.clients.eraseP (fun d => d.ptr = c.ptr), clntMutex := false }
  base := (afIpcUtilShutdownRequests c.reqControl (eventFreeIf c.recvEvent w.base)).2
  script := w.script
  trace := w.trace ++ closeCalls status c w.server.closeCallback

/-- Between two calls: the mutex is free, and no client is marked for shutdown. -/
structure Idle (w : World) : Prop where
  sound : Sound w.endpoint
  unlocked : w.server.clntMutex = false
  fds : ∀ c ∈ w.server.clients, 0 ≤ c.clientFd
  unmarked : ∀ c ∈ w.server.clients, c.flags &&& clientFlagsMarkedForShutdown = 0

/-- What a call does: steps of the endpoint, in which the frames `fs` are taken and
    the clients in `spared` stay connected. -/
structure Evolves (w w' : World) (fs : List (Nat × Frame))
    (spared : Nat × BitVec 16 × Int → Prop) : Prop where
  steps : w.endpoint.Steps w'.endpoint
  taken : takenOf w'.trace = takenOf w.trace ++ fs
  keeps : ∀ id, spared id → id ∈ w.idents → id ∈ w'.idents
  flags : w'.server.flags = w.server.flags

theorem Evolves.trans {w₁ w₂ w₃ : World} {fs gs : List (Nat × Frame)}
    {spared : Nat × BitVec 16 × Int → Prop} (h : Evolves w₁ w₂ fs spared)
    (h' : Evolves w₂ w₃ gs spared) : Evolves w₁ w₃ (fs ++ gs) spared where
  steps := h.steps.trans h'.steps
  taken := by rw [h'.taken, h.taken, List.append_assoc]
  keeps := fun id hs hid => h'.keeps id hs (h.keeps id hs hid)
  flags := h'.flags.trans h.flags

theorem Evolves.mono {w w' : World} {fs : List (Nat × Frame)}
    {spared spared' : Nat × BitVec 16 × Int → Prop} (h : Evolves w w' fs spared)
    (hs : ∀ id, spared' id → spared id) : Evolves w w' fs spared' where
  steps := h.steps
  taken := h.taken
  keeps := fun id hid => h.keeps id (hs id hid)
  flags := h.flags

theorem Evolves.refl (w : World) (spared : Nat × BitVec 16 × Int → Prop) :
    Evolves w w [] spared where
  steps := .refl
  taken := (List.append_nil _).symm
  keeps := fun _ _ hid => hid
  flags := rfl

section Clients

variable {w : World} {c : Client}

theorem Idle.ptrs (hi : Idle w) : (w.server.clients.map Client.ptr).Nodup := by
  have hptrs := hi.sound.lives.ptrs
  rw [World.endpoint, List.map_map] at hptrs
  exact hptrs

theorem Idle.eq_of_ptr (hi : Idle w) {d : Client} (hc : c ∈ w.server.clients)
    (hd : d ∈ w.server.clients) (hptr : d.ptr = c.ptr) : d = c :=
  List.inj_on_of_nodup_map hi.ptrs hd hc hptr

theorem conn_mem (hc : c ∈ w.server.clients) : c.conn ∈ w.endpoint.conns :=
  List.mem_map_of_mem hc

theorem client_mem {ptr : Nat} (h : w.client ptr = .ok c) :
    c ∈ w.server.clients ∧ c.ptr = ptr := by
  unfold World.client at h
  split at h
  · rename_i d hfind
    cases h
    exact ⟨List.mem_of_find?_eq_some hfind, by simpa using List.find?_some hfind⟩
  · cases h

theorem Idle.client (hi : Idle w) (hc : c ∈ w.server.clients) : w.client c.ptr = .ok c := by
  rw [World.client, find?_key hi.ptrs hc]

theorem findClientByCid_mem {cid : BitVec 16} (h : findClientByCid w cid = some c) :
    c ∈ w.server.clients ∧ c.cid = cid := by
  refine ⟨List.mem_of_find?_eq_some h, by simpa using List.find?_some h⟩

/-- Writing a record back is writing its connection back. -/
theorem setClient_endpoint (w : World) (c : Client) :
    (w.setClient c).endpoint = w.endpoint.setConn c.conn := by
  have hmap : (w.server.clients.map (fun d => if d.ptr = c.ptr then c else d)).map Client.conn =
      (w.server.clients.map Client.conn).map (fun d => if d.ptr = c.conn.ptr then c.conn else d) := by
    rw [List.map_map, List.map_map]
    apply List.map_congr_left
    intro d _
    show (if d.ptr = c.ptr then c else d).conn = if d.ptr = c.ptr then c.conn else d.conn
    split_ifs <;> rfl
  exact congrArg (fun conns => Endpoint.mk conns w.server.lastCid w.base w.trace) hmap

theorem setClient_ptrs (hi : Idle w) (c' : Client) :
    ((w.setClient c').server.clients.map Client.ptr).Nodup := by
  have hmap : (w.setClient c').server.clients.map Client.ptr = w.server.clients.map Client.ptr := by
    show (w.server.clients.map _).map Client.ptr = _
    rw [List.map_map]
    apply List.map_congr_left
    intro d _
    show (if d.ptr = c'.ptr then c' else d).ptr = d.ptr
    split_ifs with hptr
    · exact hptr.symm
    · rfl
  rw [hmap]
  exact hi.ptrs

theorem setClient_mem (hc : c ∈ w.server.clients) {c' : Client} (hptr : c'.ptr = c.ptr) :
    c' ∈ (w.setClient c').server.clients :=
  List.mem_map.mpr ⟨c, hc, if_pos hptr.symm⟩

theorem setClient_idents (hi : Idle w) (hc : c ∈ w.server.clients) (c' : Client)
    (hid : c'.ident = c.ident) : (w.setClient c').idents = w.idents := by
  show (w.server.clients.map _).map Client.ident = w.server.clients.map Client.ident
  rw [List.map_map]
  apply List.map_congr_left
  intro d hd
  have hptr : c'.ptr = c.ptr := congrArg Prod.fst hid
  show (if d.ptr = c'.ptr then c' else d).ident = d.ident
  split_ifs with heq
  · rw [hi.eq_of_ptr hc hd (heq.trans hptr), hid]
  · rfl

/-- Every record satisfies what the old ones and the new one do. -/
theorem setClient_all {P : Client → Prop} (h : ∀ d ∈ w.server.clients, P d) {c' : Client}
    (hc' : P c') : ∀ d ∈ (w.setClient c').server.clients, P d := by
  intro d hd
  obtain ⟨d', hd', rfl⟩ := List.mem_map.mp hd
  split_ifs
  · exact hc'
  · exact h d' hd'

theorem lock_eq (hu : w.server.clntMutex = false) : w.lock = .ok w.locked := by
  rw [World.lock, if_neg (by rw [hu]; exact Bool.false_ne_true)]
  rfl

theorem closeClient_eq {ptr : Nat} (hc : w.client ptr = .ok c) (hu : w.server.clntMutex = false)
    (status : Int) : closeClient status ptr w = .ok (w.closed status c) := by
  have hptr := (client_mem hc).2
  subst hptr
  have hlock := @lock_eq ((w.note (.shutdown c.clientFd .rd)).setBase
    (eventFreeIf c.recvEvent w.base)) hu
  simp only [closeClient, hc, bind, Except.bind]
  have hbase : (w.note (.shutdown c.clientFd .rd)).base = w.base := rfl
  rw [hbase, hlock]
  simp only [pure, Except.pure]
  by_cases hcb : status ≠ statusDontCallCallback ∧ w.server.closeCallback.isSome = true
  · have hcalls : closeCalls status c w.server.closeCallback =
        [.shutdown c.clientFd .rd, .release c.ptr, .closeFd c.clientFd,
          .closeCallback c.ptr status c.cid c.clientContext] := by
      rw [closeCalls, if_pos hcb]
      rfl
    refine (if_pos hcb).trans ?_
    rw [World.closed, hcalls]
    simp [World.note, World.setBase, World.setClients, World.unlock, World.locked]
  · have hcalls : closeCalls status c w.server.closeCallback =
        [.shutdown c.clientFd .rd, .release c.ptr, .closeFd c.clientFd] := by
      rw [closeCalls, if_neg hcb]
      rfl
    refine (if_neg hcb).trans ?_
    rw [World.closed, hcalls]
    simp [World.note, World.setBase, World.setClients, World.unlock, World.locked]

theorem closeCalls_closing (status : Int) (c : Client) (closeCallback : Option Callback) :
    ∀ call ∈ closeCalls status c closeCallback, call.closing c.ptr = true := by
  unfold closeCalls
  split_ifs <;> simp [Call.closing, Call.inert]

theorem closeCalls_closes (status : Int) (c : Client) (closeCallback : Option Callback) :
    closesOf c.ptr (closeCalls status c closeCallback) ≤ 1 := by
  unfold closeCalls
  split_ifs <;> simp [closesOf, Call.isClose]

theorem closeCalls_releases (status : Int) (c : Client) (closeCallback : Option Callback) :
    releasesOf c.ptr (closeCalls status c closeCallback) = 1 := by
  unfold closeCalls
  split_ifs <;> simp [releasesOf, Call.isRelease]

@[simp] theorem takenOf_closeCalls (status : Int) (c : Client) (closeCallback : Option Callback) :
    takenOf (closeCalls status c closeCallback) = [] := by
  unfold closeCalls
  split_ifs <;> rfl

theorem closed_endpoint (hnodup : (w.server.clients.map Client.ptr).Nodup) (status : Int) :
    (w.closed status c).endpoint =
      ((w.endpoint.without c.ptr).setBase
        (afIpcUtilShutdownRequests c.reqControl (eventFreeIf c.recvEvent w.base)).2).note
          (closeCalls status c w.server.closeCallback) := by
  have hmap : (w.server.clients.eraseP (fun d => d.ptr = c.ptr)).map Client.conn =
      (w.server.clients.map Client.conn).filter (fun d => d.ptr ≠ c.ptr) := by
    rw [eraseP_key hnodup, List.filter_map]
    rfl
  exact congrArg (fun conns => Endpoint.mk conns w.server.lastCid _ _) hmap

/-- Closing a client leaves the others. -/
theorem closed_idents (hnodup : (w.server.clients.map Client.ptr).Nodup) (status : Int)
    {id : Nat × BitVec 16 × Int} (hne : id.1 ≠ c.ptr) (hid : id ∈ w.idents) :
    id ∈ (w.closed status c).idents := by
  obtain ⟨d, hd, rfl⟩ := List.mem_map.mp hid
  refine List.mem_map.mpr ⟨d, ?_, rfl⟩
  show d ∈ w.server.clients.eraseP _
  rw [eraseP_key hnodup]
  exact List.mem_filter.mpr ⟨hd, by simpa [Client.ident] using hne⟩

/-- `close_client` on a live record. -/
theorem closeClient_spec (hi : Idle w) (hc : c ∈ w.server.clients) (status : Int) :
    closeClient status c.ptr w = .ok (w.closed status c) ∧ Idle (w.closed status c) ∧
      Evolves w (w.closed status c) [] (fun id => id ≠ c.ident) := by
  have hsteps : w.endpoint.Steps (w.closed status c).endpoint := by
    rw [closed_endpoint hi.ptrs]
    exact .single (.close (conn_mem hc) (closeCalls_closing _ _ _) (closeCalls_closes _ _ _)
      (closeCalls_releases _ _ _))
  refine ⟨closeClient_eq (hi.client hc) hi.unlocked status, ?_, ?_⟩
  · exact
      { sound := hsteps.sound hi.sound
        unlocked := rfl
        fds := fun d hd => hi.fds d (List.mem_of_mem_eraseP hd)
        unmarked := fun d hd => hi.unmarked d (List.mem_of_mem_eraseP hd) }
  · exact
      { steps := hsteps
        taken := by
          show takenOf (w.trace ++ closeCalls status c w.server.closeCallback) = _
          rw [takenOf_append, takenOf_closeCalls]
        keeps := by
          intro id hne hid
          refine closed_idents hi.ptrs status (fun hptr => hne ?_) hid
          obtain ⟨d, hd, rfl⟩ := List.mem_map.mp hid
          rw [hi.eq_of_ptr hc hd hptr]
        flags := rfl }

end Clients

-- ============================================================================
-- Sending
-- ============================================================================

/-- What a send to the record `c` leaves. -/
def World.sent (w : World) (c : Client) (sentBy : SentBy) (r : SendResult) (ok : Bool) : World :=
  ((w.setClient { c with reqControl := r.rc.getD c.reqControl }).setBase r.base).noteSend c sentBy
    r.packet ok

theorem noteSend_eq (w : World) (c : Client) (sentBy : SentBy) (packet : Option Packet)
    (ok : Bool) : w.noteSend c sentBy packet ok =
      { w with trace := w.trace ++ sendCalls c.ptr c.clientFd sentBy packet ok } := by
  cases packet with
  | none =>
      rw [sendCalls, List.append_nil]
      rfl
  | some packet => rfl

@[simp] theorem takenOf_sendCalls (conn : Nat) (fd : Int) (sentBy : SentBy)
    (packet : Option Packet) (ok : Bool) : takenOf (sendCalls conn fd sentBy packet ok) = [] := by
  cases packet <;> rfl

theorem sent_endpoint (w : World) (c : Client) (sentBy : SentBy) (r : SendResult) (ok : Bool) :
    (w.sent c sentBy r ok).endpoint =
      ((w.endpoint.setConn { c.conn with table := r.rc.getD c.conn.table }).setBase r.base).note
        (sendCalls c.ptr c.clientFd sentBy r.packet ok) := by
  have hset := setClient_endpoint w { c with reqControl := r.rc.getD c.reqControl }
  rw [World.sent, noteSend_eq]
  exact congrArg (fun h : Endpoint =>
    (h.setBase r.base).note (sendCalls c.ptr c.clientFd sentBy r.packet ok)) hset

section Send

variable {w : World} {c : Client} {sentBy : SentBy} {rc : Option ReqControl} {seqNum : BitVec 32}
  {txBuffer : List Byte} {txBufferSize : Int} {callback : Option Callback} {context : Context}
  {timeoutMs : Int} {env : SendEnv} {r : SendResult}

/-- A send that succeeds. -/
theorem sent_spec (hi : Idle w) (hc : c ∈ w.server.clients)
    (hrc : rc = none ∨ rc = some c.reqControl) (hplain : sentBy ≠ .response → seqNum = 0)
    (hroute : sentBy = .response → c.cid = getClientId seqNum)
    (hreq : 0 < timeoutMs → sentBy = .request callback context)
    (hs : sendSucceeds rc txBufferSize timeoutMs env = true)
    (hr : r = afIpcSend rc w.base seqNum txBuffer txBufferSize callback context timeoutMs env) :
    Idle (w.sent c sentBy r env.sendmsg) ∧
      Evolves w (w.sent c sentBy r env.sendmsg) [] (fun _ => True) := by
  have hstep := afIpcSend_step c.clientFd hi.sound.lives (conn_mem hc) hrc hplain
    (fun heq => .inl (hroute heq)) hreq hs hr
  have hsteps : w.endpoint.Steps (w.sent c sentBy r env.sendmsg).endpoint := by
    rw [sent_endpoint]
    exact .single hstep
  have hserver : (w.sent c sentBy r env.sendmsg).server =
      (w.setClient { c with reqControl := r.rc.getD c.reqControl }).server := by
    rw [World.sent, noteSend_eq]
    rfl
  refine ⟨⟨hsteps.sound hi.sound, ?_, ?_, ?_⟩, ⟨hsteps, ?_, ?_, ?_⟩⟩
  · rw [hserver]
    exact hi.unlocked
  · rw [hserver]
    exact setClient_all hi.fds (hi.fds c hc)
  · rw [hserver]
    exact setClient_all hi.unmarked (hi.unmarked c hc)
  · rw [World.sent, noteSend_eq]
    show takenOf (w.trace ++ _) = _
    rw [takenOf_append, takenOf_sendCalls]
  · intro id _ hid
    rw [World.idents, hserver]
    have hidents := setClient_idents hi hc { c with reqControl := r.rc.getD c.reqControl } rfl
    rw [World.idents] at hidents
    rw [hidents]
    exact hid
  · rw [hserver]
    rfl

variable (sentBy) in
/-- A send that fails closes the client. -/
theorem sent_close_spec (hi : Idle w) (hc : c ∈ w.server.clients)
    (hrc : rc = none ∨ rc = some c.reqControl)
    (hs : sendSucceeds rc txBufferSize timeoutMs env = false)
    (hr : r = afIpcSend rc w.base seqNum txBuffer txBufferSize callback context timeoutMs env) :
    ∃ w', closeClient statusError c.ptr (w.sent c sentBy r env.sendmsg) = .ok w' ∧ Idle w' ∧
      Evolves w w' [] (fun id => id ≠ c.ident) ∧ w'.script = w.script := by
  have hserver : (w.sent c sentBy r env.sendmsg).server =
      (w.setClient { c with reqControl := r.rc.getD c.reqControl }).server := by
    rw [World.sent, noteSend_eq]
    rfl
  have hnodup : ((w.sent c sentBy r env.sendmsg).server.clients.map Client.ptr).Nodup := by
    rw [hserver]
    exact setClient_ptrs hi _
  have hmem : { c with reqControl := r.rc.getD c.reqControl } ∈
      (w.sent c sentBy r env.sendmsg).server.clients := by
    rw [hserver]
    exact setClient_mem hc rfl
  have hclient : (w.sent c sentBy r env.sendmsg).client c.ptr =
      .ok { c with reqControl := r.rc.getD c.reqControl } := by
    have hfind := find?_key hnodup hmem
    simp only [World.client, hfind]
  have hunlocked : (w.sent c sentBy r env.sendmsg).server.clntMutex = false := by
    rw [hserver]
    exact hi.unlocked
  have hsteps := afIpcSend_close_steps c.clientFd sentBy hi.sound.lives (conn_mem hc) hrc hs hr
    (closeCalls_closing statusError c w.server.closeCallback) (closeCalls_closes _ _ _)
    (closeCalls_releases _ _ _)
  have hendpoint := @closed_endpoint (w.sent c sentBy r env.sendmsg)
    { c with reqControl := r.rc.getD c.reqControl } hnodup statusError
  rw [sent_endpoint] at hendpoint
  have hwithout := setConn_without w.endpoint { c.conn with table := r.rc.getD c.conn.table }
  have hclosed : w.endpoint.Steps ((w.sent c sentBy r env.sendmsg).closed statusError
      { c with reqControl := r.rc.getD c.reqControl }).endpoint := by
    rw [← note_note, ← hwithout] at hsteps
    rw [hendpoint]
    have hbase : (w.sent c sentBy r env.sendmsg).base = r.base := by
      rw [World.sent, noteSend_eq]
      rfl
    have hcallback : (w.sent c sentBy r env.sendmsg).server.closeCallback =
        w.server.closeCallback := by
      rw [hserver]
      rfl
    rw [hbase, hcallback]
    exact hsteps
  refine ⟨_, closeClient_eq hclient hunlocked statusError, ⟨hclosed.sound hi.sound, rfl, ?_, ?_⟩,
    ⟨hclosed, ?_, ?_, ?_⟩, ?_⟩
  · intro d hd
    have hd' := List.mem_of_mem_eraseP hd
    rw [hserver] at hd'
    refine setClient_all hi.fds ?_ d hd'
    exact hi.fds c hc
  · intro d hd
    have hd' := List.mem_of_mem_eraseP hd
    rw [hserver] at hd'
    refine setClient_all hi.unmarked ?_ d hd'
    exact hi.unmarked c hc
  · show takenOf ((w.sent c sentBy r env.sendmsg).trace ++ closeCalls _ _ _) = _
    rw [takenOf_append, takenOf_closeCalls, World.sent, noteSend_eq]
    show takenOf (w.trace ++ _) ++ [] = _
    rw [takenOf_append, takenOf_sendCalls, List.append_nil]
  · intro id hne hid
    apply closed_idents hnodup
    · intro hptr
      obtain ⟨d, hd, rfl⟩ := List.mem_map.mp hid
      have hsame : d.ptr = c.ptr := hptr
      rw [hi.eq_of_ptr hc hd hsame] at hne
      exact hne rfl
    · have hidents := setClient_idents hi hc { c with reqControl := r.rc.getD c.reqControl } rfl
      rw [World.idents, hserver]
      rw [World.idents] at hidents
      rw [hidents]
      exact hid
  · show (w.sent c sentBy r env.sendmsg).server.flags = _
    rw [hserver]
    rfl
  · show (w.sent c sentBy r env.sendmsg).script = _
    rw [World.sent, noteSend_eq]
    rfl

/-- The three send functions send with the mutex held, and free it behind. -/
theorem sent_unlock (hu : w.server.clntMutex = false) (ok : Bool) :
    (w.locked.sent c sentBy r ok).unlock = w.sent c sentBy r ok := by
  obtain ⟨⟨serverFd, listener, mutex, clients, lastCid, flags, cb, ctx, rcb, ccb⟩, base, script,
    trace⟩ := w
  cases hu
  rw [World.sent, World.sent, noteSend_eq, noteSend_eq]
  rfl

/-- A send without a table leaves the record as it is. -/
theorem noteSend_sent (hi : Idle w) (hc : c ∈ w.server.clients)
    (hr : r = afIpcSend none w.base seqNum txBuffer txBufferSize callback context timeoutMs env)
    (ok : Bool) : w.locked.noteSend c sentBy r.packet ok = w.locked.sent c sentBy r ok := by
  obtain ⟨hrc, hbase⟩ := @afIpcSend_none w.base seqNum txBuffer txBufferSize callback context
    timeoutMs env
  rw [← hr] at hrc hbase
  have hmap : w.server.clients.map (fun d => if d.ptr = c.ptr then c else d) =
      w.server.clients := by
    conv_rhs => rw [← List.map_id w.server.clients]
    apply List.map_congr_left
    intro d hd
    split_ifs with hptr
    · exact (hi.eq_of_ptr hc hd hptr).symm
    · rfl
  have hself : w.locked.setClient { c with reqControl := r.rc.getD c.reqControl } = w.locked := by
    rw [hrc]
    exact congrArg w.locked.setClients hmap
  rw [World.sent, hself, hbase]
  rfl

end Send

-- ============================================================================
-- Calls of the application
-- ============================================================================

/-- The call ends the connection of the client, which it closes or fails to send
    to. -/
def Action.releases (id : Nat × BitVec 16 × Int) : Action → Bool
  | .sendResponse seqNum _ txBufferSize env =>
    getSeqId seqNum != 0 && getClientId seqNum = id.2.1 && !sendSucceeds none txBufferSize 0 env
  | .sendUnsolicited clientId _ txBufferSize env =>
    clientId != 0 && clientId = id.2.1 && !sendSucceeds none txBufferSize 0 (env id.2.2)
  | .sendRequest clientId _ txBufferSize _ _ timeoutMs env =>
    clientId != 0 && clientId = id.2.1 &&
      !sendSucceeds (some ReqControl.zero) txBufferSize timeoutMs env
  | .closeClient clientId => clientId = id.2.1

section Calls

variable {w : World}

/-- What a call leaves if it ends no connection but those it releases. -/
def Called (w : World) (a : Action) (w' : World) : Prop :=
  Idle w' ∧ Evolves w w' [] (fun id => a.releases id = false) ∧ w'.script = w.script

theorem Called.unchanged (hi : Idle w) (a : Action) : Called w a w :=
  ⟨hi, .refl w _, rfl⟩

theorem unlock_locked (hu : w.server.clntMutex = false) : w.locked.unlock = w := by
  obtain ⟨⟨serverFd, listener, mutex, clients, lastCid, flags, cb, ctx, rcb, ccb⟩, base, script,
    trace⟩ := w
  cases hu
  rfl

/-- The end of the three send functions: a send that failed closes the client. -/
theorem send_tail (hi : Idle w) {c : Client} (hc : c ∈ w.server.clients) {sentBy : SentBy}
    {rc : Option ReqControl} {seqNum : BitVec 32} {txBuffer : List Byte} {txBufferSize : Int}
    {callback : Option Callback} {context : Context} {timeoutMs : Int} {env : SendEnv}
    {r : SendResult} (hrc : rc = none ∨ rc = some c.reqControl)
    (hplain : sentBy ≠ .response → seqNum = 0)
    (hroute : sentBy = .response → c.cid = getClientId seqNum)
    (hreq : 0 < timeoutMs → sentBy = .request callback context)
    (hr : r = afIpcSend rc w.base seqNum txBuffer txBufferSize callback context timeoutMs env)
    (a : Action) (hrel : sendSucceeds rc txBufferSize timeoutMs env = false →
      a.releases c.ident = true) :
    ∃ out, (if r.ret < 0 then
        closeClient statusError c.ptr (w.sent c sentBy r env.sendmsg) >>= fun w =>
          pure (⟨r.ret, r.errno⟩, w)
      else pure (⟨r.ret, r.errno⟩, w.sent c sentBy r env.sendmsg) : Except Fault (Reply × World)) =
        .ok out ∧ Called w a out.2 := by
  have hret := @afIpcSend_ret rc w.base seqNum txBuffer txBufferSize callback context timeoutMs env
  rw [← hr] at hret
  cases hs : sendSucceeds rc txBufferSize timeoutMs env with
  | true =>
      obtain ⟨hidle, hevolves⟩ := sent_spec hi hc hrc hplain hroute hreq hs hr
      have hok : ¬ r.ret < 0 := by
        rw [hret, if_pos hs]
        omega
      rw [if_neg hok]
      refine ⟨_, rfl, hidle, hevolves.mono (fun _ _ => trivial), ?_⟩
      show (w.sent c sentBy r env.sendmsg).script = w.script
      rw [World.sent, noteSend_eq]
      rfl
  | false =>
      obtain ⟨w', hclose, hidle, hevolves, hscript⟩ := sent_close_spec sentBy hi hc hrc hs hr
      have hfail : r.ret < 0 := by
        rw [hret, hs]
        decide
      rw [if_pos hfail, hclose]
      refine ⟨_, rfl, hidle, hevolves.mono (fun id hspared heq => ?_), hscript⟩
      rw [heq, hrel hs] at hspared
      cases hspared

theorem sendResponse_spec (hi : Idle w) (seqNum : BitVec 32) (txBuffer : List Byte)
    (txBufferSize : Int) (env : SendEnv) :
    ∃ out, afIpcsSendResponse seqNum txBuffer txBufferSize env w = .ok out ∧
      Called w (.sendResponse seqNum txBuffer txBufferSize env) out.2 := by
  have hunchanged : Called w (.sendResponse seqNum txBuffer txBufferSize env) w.locked.unlock := by
    rw [unlock_locked hi.unlocked]
    exact .unchanged hi _
  simp only [afIpcsSendResponse, lock_eq hi.unlocked, bind, Except.bind]
  by_cases hseq : getSeqId seqNum ≠ 0
  · rw [if_pos hseq]
    have hlocked : findClientByCid w.locked (getClientId seqNum) =
        findClientByCid w (getClientId seqNum) := rfl
    rw [hlocked]
    cases hfind : findClientByCid w (getClientId seqNum) with
    | none => exact ⟨_, rfl, hunchanged⟩
    | some c =>
        obtain ⟨hc, hcid⟩ := findClientByCid_mem hfind
        have hbase : w.locked.base = w.base := rfl
        simp only [hbase]
        generalize hr : afIpcSend none w.base seqNum txBuffer txBufferSize none 0 0 env = r
        rw [noteSend_sent hi hc hr.symm, sent_unlock hi.unlocked]
        refine send_tail hi hc (.inl rfl) (fun hne => absurd rfl hne) (fun _ => hcid)
          (fun ht => absurd ht (by decide)) hr.symm _ (fun hs => ?_)
        simp only [Action.releases, Client.ident, hs, hcid]
        simpa using hseq
  · rw [if_neg hseq]
    exact ⟨_, rfl, hunchanged⟩

theorem sendRequest_spec (hi : Idle w) (clientId : BitVec 16) (txBuffer : List Byte)
    (txBufferSize : Int) (callback : Option Callback) (context : Context) (timeoutMs : Int)
    (env : SendEnv) :
    ∃ out, afIpcsSendRequest clientId txBuffer txBufferSize callback context timeoutMs env w =
        .ok out ∧
      Called w (.sendRequest clientId txBuffer txBufferSize callback context timeoutMs env)
        out.2 := by
  have hunchanged : Called w
      (.sendRequest clientId txBuffer txBufferSize callback context timeoutMs env)
      w.locked.unlock := by
    rw [unlock_locked hi.unlocked]
    exact .unchanged hi _
  simp only [afIpcsSendRequest, lock_eq hi.unlocked, bind, Except.bind]
  by_cases hzero : clientId = 0
  · rw [if_pos hzero]
    exact ⟨_, rfl, .unchanged hi _⟩
  · rw [if_neg hzero]
    have hlocked : findClientByCid w.locked clientId = findClientByCid w clientId := rfl
    rw [hlocked]
    cases hfind : findClientByCid w clientId with
    | none => exact ⟨_, rfl, hunchanged⟩
    | some c =>
        obtain ⟨hc, hcid⟩ := findClientByCid_mem hfind
        have hbase : w.locked.base = w.base := rfl
        have hfd : c.clientFd ≥ 0 := hi.fds c hc
        simp only [hbase]
        rw [if_pos hfd]
        generalize hr : afIpcSend (some c.reqControl) w.base 0 txBuffer txBufferSize callback
          context timeoutMs env = r
        have hsent := @sent_unlock w c (.request callback context) r hi.unlocked env.sendmsg
        rw [World.sent] at hsent
        rw [hsent]
        refine send_tail hi hc (.inr rfl) (fun _ => rfl) (fun hne => by cases hne) (fun _ => rfl)
          hr.symm _ (fun hs => ?_)
        have hs' : sendSucceeds (some ReqControl.zero) txBufferSize timeoutMs env = false := hs
        simp only [Action.releases, Client.ident, hs', hcid]
        simpa using hzero

/-- One message of a broadcast. -/
theorem noteSend_spec (hi : Idle w) {c : Client} (hc : c ∈ w.server.clients) {r : SendResult}
    {txBuffer : List Byte} {txBufferSize : Int} {env : SendEnv}
    (hr : r = afIpcSend none w.base 0 txBuffer txBufferSize none 0 0 env) :
    Idle (w.noteSend c .unsolicited r.packet env.sendmsg) ∧
      Evolves w (w.noteSend c .unsolicited r.packet env.sendmsg) [] (fun _ => True) := by
  have hsteps := afIpcSend_unnoticed_steps c.clientFd (conn_mem hc) hr
  rw [noteSend_eq]
  refine ⟨⟨hsteps.sound hi.sound, hi.unlocked, hi.fds, hi.unmarked⟩,
    ⟨hsteps, ?_, fun _ _ hid => hid, rfl⟩⟩
  show takenOf (w.trace ++ _) = _
  rw [takenOf_append, takenOf_sendCalls]

/-- A broadcast ends no connection. -/
theorem broadcast_spec (hi : Idle w) (txBuffer : List Byte) (txBufferSize : Int)
    (env : Int → SendEnv) (clients : List Client) (hclients : ∀ c ∈ clients, c ∈ w.server.clients) :
    Idle (broadcast txBuffer txBufferSize env clients w) ∧
      Evolves w (broadcast txBuffer txBufferSize env clients w) [] (fun _ => True) ∧
      (broadcast txBuffer txBufferSize env clients w).script = w.script := by
  induction clients generalizing w with
  | nil => exact ⟨hi, .refl w _, rfl⟩
  | cons c clients ih =>
      have hsend : afIpcSend none w.base 0 txBuffer txBufferSize none 0 0 (env c.clientFd) =
          afIpcSend none w.base 0 txBuffer txBufferSize none 0 0 (env c.clientFd) := rfl
      obtain ⟨hidle, hevolves⟩ := noteSend_spec hi (hclients c List.mem_cons_self) hsend
      rw [noteSend_eq] at hidle hevolves
      obtain ⟨hidle', hevolves', hscript⟩ := ih hidle
        (fun d hd => hclients d (List.mem_cons_of_mem c hd))
      show Idle (broadcast txBuffer txBufferSize env clients (w.noteSend c _ _ _)) ∧
        Evolves w (broadcast txBuffer txBufferSize env clients (w.noteSend c _ _ _)) [] _ ∧
        (broadcast txBuffer txBufferSize env clients (w.noteSend c _ _ _)).script = w.script
      rw [noteSend_eq]
      exact ⟨hidle', hevolves.trans hevolves', hscript⟩

theorem broadcast_unlock (hu : w.server.clntMutex = false) (txBuffer : List Byte)
    (txBufferSize : Int) (env : Int → SendEnv) (clients : List Client) :
    (broadcast txBuffer txBufferSize env clients w.locked).unlock =
      broadcast txBuffer txBufferSize env clients w := by
  induction clients generalizing w with
  | nil => exact unlock_locked hu
  | cons c clients ih =>
      have hnote : ∀ packet ok, w.locked.noteSend c .unsolicited packet ok =
          (w.noteSend c .unsolicited packet ok).locked := by
        intro packet ok
        cases packet <;> rfl
      have hfree : ∀ packet ok,
          (w.noteSend c .unsolicited packet ok).server.clntMutex = false := by
        intro packet ok
        cases packet <;> exact hu
      show (broadcast txBuffer txBufferSize env clients (w.locked.noteSend c _ _ _)).unlock =
        broadcast txBuffer txBufferSize env clients (w.noteSend c _ _ _)
      rw [hnote]
      exact ih (hfree _ _)

theorem sendUnsolicited_spec (hi : Idle w) (clientId : BitVec 16) (txBuffer : List Byte)
    (txBufferSize : Int) (env : Int → SendEnv) :
    ∃ out, afIpcsSendUnsolicited clientId txBuffer txBufferSize env w = .ok out ∧
      Called w (.sendUnsolicited clientId txBuffer txBufferSize env) out.2 := by
  have hunchanged : Called w (.sendUnsolicited clientId txBuffer txBufferSize env)
      w.locked.unlock := by
    rw [unlock_locked hi.unlocked]
    exact .unchanged hi _
  simp only [afIpcsSendUnsolicited, lock_eq hi.unlocked, bind, Except.bind]
  by_cases hzero : clientId = 0
  · obtain ⟨hidle, hevolves, hscript⟩ := broadcast_spec hi txBuffer txBufferSize env
      w.server.clients (fun _ hc => hc)
    have hunlock := @broadcast_unlock w hi.unlocked txBuffer txBufferSize env w.server.clients
    rw [if_pos hzero]
    refine ⟨_, rfl, ?_⟩
    show Called w _ (broadcast txBuffer txBufferSize env w.server.clients w.locked).unlock
    rw [hunlock]
    exact ⟨hidle, hevolves.mono (fun _ _ => trivial), hscript⟩
  · rw [if_neg hzero]
    have hlocked : findClientByCid w.locked clientId = findClientByCid w clientId := rfl
    rw [hlocked]
    cases hfind : findClientByCid w clientId with
    | none => exact ⟨_, rfl, hunchanged⟩
    | some c =>
        obtain ⟨hc, hcid⟩ := findClientByCid_mem hfind
        have hbase : w.locked.base = w.base := rfl
        have hfd : c.clientFd ≥ 0 := hi.fds c hc
        simp only [hbase]
        rw [if_pos hfd]
        generalize hr : afIpcSend none w.base 0 txBuffer txBufferSize none 0 0 (env c.clientFd) = r
        rw [noteSend_sent hi hc hr.symm, sent_unlock hi.unlocked]
        refine send_tail hi hc (.inl rfl) (fun _ => rfl) (fun hne => by cases hne)
          (fun ht => absurd ht (by decide)) hr.symm _ (fun hs => ?_)
        simp only [Action.releases, Client.ident, hs, hcid]
        simpa using hzero

theorem closeClient_call_spec (hi : Idle w) (clientId : BitVec 16) :
    ∃ out, afIpcsCloseClient clientId w = .ok out ∧ Called w (.closeClient clientId) out.2 := by
  unfold afIpcsCloseClient
  cases hfind : findClientByCid w clientId with
  | none => exact ⟨_, rfl, .unchanged hi _⟩
  | some c =>
      obtain ⟨hc, hcid⟩ := findClientByCid_mem hfind
      obtain ⟨hclose, hidle, hevolves⟩ := closeClient_spec hi hc statusOk
      simp only [hclose, bind, Except.bind]
      refine ⟨_, rfl, hidle, hevolves.mono (fun id hspared heq => ?_), rfl⟩
      rw [heq] at hspared
      simp [Action.releases, Client.ident, hcid] at hspared

/-- **A call of the application** returns, and ends no connection but those it
    releases. -/
theorem runAction_spec (hi : Idle w) (a : Action) : ∃ w', runAction w a = .ok w' ∧ Called w a w' := by
  cases a with
  | sendResponse seqNum txBuffer txBufferSize env =>
      obtain ⟨out, heq, hcalled⟩ := sendResponse_spec hi seqNum txBuffer txBufferSize env
      simp only [runAction, heq]
      exact ⟨_, rfl, hcalled⟩
  | sendUnsolicited clientId txBuffer txBufferSize env =>
      obtain ⟨out, heq, hcalled⟩ := sendUnsolicited_spec hi clientId txBuffer txBufferSize env
      simp only [runAction, heq]
      exact ⟨_, rfl, hcalled⟩
  | sendRequest clientId txBuffer txBufferSize callback context timeoutMs env =>
      obtain ⟨out, heq, hcalled⟩ := sendRequest_spec hi clientId txBuffer txBufferSize callback
        context timeoutMs env
      simp only [runAction, heq]
      exact ⟨_, rfl, hcalled⟩
  | closeClient clientId =>
      obtain ⟨out, heq, hcalled⟩ := closeClient_call_spec hi clientId
      simp only [runAction, heq]
      exact ⟨_, rfl, hcalled⟩

end Calls

end AfIpc.Ipcs
