/-
  AfIpc.Ipcs.Accept

  How clients come in: the ids that `get_next_cid` gives, and `on_accept` as
  steps of the endpoint.  The new client heads the list before its accept
  callback runs, so the callback may already release it; `on_accept` follows the
  pointer once more behind the callback.
-/

import Mathlib.Order.Interval.Finset.Nat
import AfIpc.Ipcs.Lifecycle

namespace AfIpc.Ipcs

open AfIpc.Lib AfIpc.Ipc

-- ============================================================================
-- Ids
-- ============================================================================

/-- The id that `get_next_cid` tries behind `last`. -/
def nextCid (last : BitVec 16) : BitVec 16 :=
  if last + 1 = 0 then last + 1 + 1 else last + 1

/-- The ids from 1 on are a cycle. -/
theorem nextCid_toNat (last : BitVec 16) : (nextCid last).toNat = last.toNat % 65535 + 1 := by
  have hlt := last.isLt
  have hsucc : (last + 1).toNat = (last.toNat + 1) % 65536 := BitVec.toNat_add last 1
  unfold nextCid
  split_ifs with hzero
  · have hwrap : (last + 1).toNat = 0 := by rw [hzero]; rfl
    rw [hzero]
    show 1 = _
    omega
  · have hpos : (last + 1).toNat ≠ 0 := fun h => hzero (BitVec.eq_of_toNat_eq h)
    omega

theorem nextCid_ne_zero (last : BitVec 16) : nextCid last ≠ 0 := by
  intro h
  have hzero : (nextCid last).toNat = 0 := by rw [h]; rfl
  rw [nextCid_toNat] at hzero
  omega

theorem getNextCid_succ (clients : List Client) (fuel : Nat) (last : BitVec 16) :
    getNextCid clients (fuel + 1) last =
      if clients.any (fun c => c.cid = nextCid last) then getNextCid clients fuel (nextCid last)
      else .ok (nextCid last) := rfl

/-- **An id that is given** is no client's, and not 0. -/
theorem getNextCid_ok {clients : List Client} {fuel : Nat} {last cid : BitVec 16}
    (h : getNextCid clients fuel last = .ok cid) :
    cid ≠ 0 ∧ ∀ c ∈ clients, c.cid ≠ cid := by
  induction fuel generalizing last with
  | zero => cases h
  | succ fuel ih =>
      rw [getNextCid_succ] at h
      split_ifs at h with hany
      · exact ih h
      · cases h
        refine ⟨nextCid_ne_zero last, fun c hc heq => hany ?_⟩
        exact List.any_eq_true.mpr ⟨c, hc, by simpa using heq⟩

/-- As long as the ids have not wrapped, the first id tried is given. -/
theorem getNextCid_fresh {clients : List Client} {fuel : Nat} {last cid : BitVec 16}
    (h : getNextCid clients fuel last = .ok cid)
    (hbelow : ∀ c ∈ clients, c.cid.toNat ≤ last.toNat) (hlast : last.toNat < 2 ^ 16 - 1) :
    cid.toNat = last.toNat + 1 := by
  cases fuel with
  | zero => cases h
  | succ fuel =>
      have hnext : (nextCid last).toNat = last.toNat + 1 := by
        rw [nextCid_toNat, Nat.mod_eq_of_lt (by omega)]
      rw [getNextCid_succ] at h
      split_ifs at h with hany
      · obtain ⟨c, hc, hcid⟩ := List.any_eq_true.mp hany
        have hcid' : c.cid = nextCid last := by simpa using hcid
        have hle := hbelow c hc
        rw [hcid', hnext] at hle
        omega
      · cases h
        exact hnext

/-- The id is one the endpoint can give. -/
theorem getNextCid_next {w : World} {fuel : Nat} {cid : BitVec 16}
    (h : getNextCid w.server.clients fuel w.server.lastCid = .ok cid) : NextCid w.endpoint cid where
  unused := by
    intro d hd
    obtain ⟨c, hc, rfl⟩ := List.mem_map.mp hd
    exact (getNextCid_ok h).2 c hc
  succ := fun hbelow hlast =>
    getNextCid_fresh h (fun c hc => hbelow c.conn (conn_mem hc)) hlast

/-- Where the search fails it has met every id it tried. -/
theorem getNextCid_error {clients : List Client} {fuel : Nat} {last : BitVec 16} {e : Fault}
    (h : getNextCid clients fuel last = .error e) (i : Nat) (hi : i < fuel) :
    ∃ c ∈ clients, c.cid.toNat = (last.toNat % 65535 + i) % 65535 + 1 := by
  induction fuel generalizing last i with
  | zero => omega
  | succ fuel ih =>
      rw [getNextCid_succ] at h
      split_ifs at h with hany
      cases i with
      | zero =>
          obtain ⟨c, hc, hcid⟩ := List.any_eq_true.mp hany
          refine ⟨c, hc, ?_⟩
          have hcid' : c.cid = nextCid last := by simpa using hcid
          rw [hcid', nextCid_toNat]
          omega
      | succ i =>
          obtain ⟨c, hc, hcid⟩ := ih h i (by omega)
          refine ⟨c, hc, ?_⟩
          rw [hcid, nextCid_toNat]
          omega

/-- **The search ends**: with a free id left, it is found in one round. -/
theorem getNextCid_total {clients : List Client} (hlen : clients.length ≤ 65534)
    (last : BitVec 16) : ∃ cid, getNextCid clients 65536 last = .ok cid := by
  cases h : getNextCid clients 65536 last with
  | ok cid => exact ⟨cid, rfl⟩
  | error e =>
      -- otherwise 65535 ids are taken, by fewer clients
      have hall : ∀ v ∈ Finset.Icc 1 65535, v ∈ (clients.map (fun c => c.cid.toNat)).toFinset := by
        intro v hv
        have hv' := Finset.mem_Icc.mp hv
        obtain ⟨c, hc, hcid⟩ := getNextCid_error h
          ((v - 1 + (65535 - last.toNat % 65535)) % 65535) (by omega)
        rw [List.mem_toFinset, List.mem_map]
        refine ⟨c, hc, ?_⟩
        rw [hcid]
        omega
      have hcard := Finset.card_le_card hall
      have hle := List.toFinset_card_le (clients.map (fun c => c.cid.toNat))
      rw [Nat.card_Icc] at hcard
      rw [List.length_map] at hle
      omega

-- ============================================================================
-- Accepting
-- ============================================================================

/-- The record that `add_client` links and fills. -/
def World.newClient (w : World) (env : AcceptEnv) (cid : BitVec 16) : Client where
  ptr := w.base.next
  clientFd := env.clientFd
  cid := cid
  recvEvent := some (w.base.next + 1)
  reqControl := (afIpcUtilInitRequests env.reqPool env.reqMutex).2
  clientContext := 0
  flags := 0

/-- What `add_client` has set up when it comes to the accept callback. -/
def World.accepted (w : World) (env : AcceptEnv) (cid : BitVec 16) : World where
  server := { w.server with lastCid := cid, clients := w.newClient env cid :: w.server.clients }
  base := (eventNew (.client w.base.next) w.base.alloc.2).2
  script := w.script
  trace := w.trace ++ [.accept env.clientFd]

/-- The accept callback as it finds the client. -/
def World.greeted (w : World) (env : AcceptEnv) (cid : BitVec 16) : World :=
  ((w.accepted env cid).note (.acceptCallback cid)).setClient
    { w.newClient env cid with clientContext := env.context }

/-- `on_accept` behind `add_client`. -/
def watchAccepted (ptr : Nat) (w : World) : Except Fault World := do
  let c ← w.client ptr
  return match c.recvEvent with
    | some e => w.setBase (eventAdd e w.base)
    | none => w

/-- What `accept` and the calls behind it come to. -/
structure AcceptEnv.Good (env : AcceptEnv) : Prop where
  fd : 0 ≤ env.clientFd
  small : env.clientFd ≤ fdSetsize
  alloc : env.alloc = true
  init : ¬ (afIpcUtilInitRequests env.reqPool env.reqMutex).1 < 0

/-- `on_accept` gets to the accept callback. -/
structure Greets (w : World) (env : AcceptEnv) : Prop where
  good : env.Good
  event : env.recvEvent = true
  callback : w.server.acceptCallback ≠ none

/-- How `on_accept` ends. -/
inductive Accepting (w : World) (env : AcceptEnv) : Except Fault World → Prop
  | ignored (hbad : ¬ env.Good) : Accepting w env (.ok w)
  | refused (hbad : ¬ env.Good) :
      Accepting w env (.ok ((w.note (.accept env.clientFd)).note (.closeFd env.clientFd)))
  /-- No id is free. -/
  | searching (hcid : getNextCid w.server.clients 65536 w.server.lastCid = .error .outOfFuel) :
      Accepting w env (.error .outOfFuel)
  | dropped {cid : BitVec 16} (hbad : ¬ env.Good)
      (hcid : getNextCid w.server.clients 65536 w.server.lastCid = .ok cid) :
      Accepting w env (.ok (({ w with
        server := { w.server with lastCid := cid }, base := w.base.alloc.2 }.note
          (.accept env.clientFd)).note (.closeFd env.clientFd)))
  /-- Without a receive event, `close_client` is called with the mutex held. -/
  | stuck (hevent : env.recvEvent = false) : Accepting w env (.error .deadlock)
  | quiet {cid : BitVec 16} (hgood : env.Good)
      (hcid : getNextCid w.server.clients 65536 w.server.lastCid = .ok cid)
      (hcb : w.server.acceptCallback = none) :
      Accepting w env (watchAccepted w.base.next (w.accepted env cid))
  | greeted {cid : BitVec 16} (hgood : env.Good)
      (hcid : getNextCid w.server.clients 65536 w.server.lastCid = .ok cid)
      (hevent : env.recvEvent = true) (hcb : w.server.acceptCallback ≠ none) :
      Accepting w env (runCallback (w.greeted env cid) >>= watchAccepted w.base.next)

theorem getNextCid_fault {clients : List Client} {fuel : Nat} {last : BitVec 16} {e : Fault}
    (h : getNextCid clients fuel last = .error e) : e = .outOfFuel := by
  induction fuel generalizing last with
  | zero =>
      cases h
      rfl
  | succ fuel ih =>
      rw [getNextCid_succ] at h
      split_ifs at h
      exact ih h

section Accept

variable {w : World} {env : AcceptEnv} {cid : BitVec 16}

/-- The head of the list is found at its address. -/
theorem client_head {ptr : Nat} {c : Client} {clients : List Client}
    (hw : w.server.clients = c :: clients) (hptr : c.ptr = ptr) : w.client ptr = .ok c := by
  rw [World.client, hw, List.find?_cons_of_pos (by simp [hptr])]

/-- Writing the head of the list leaves the rest. -/
theorem setClient_head {c c' : Client} {clients : List Client} (hw : w.server.clients = c :: clients)
    (hptr : c.ptr = c'.ptr) (hne : ∀ d ∈ clients, d.ptr ≠ c'.ptr) :
    w.setClient c' = w.setClients (c' :: clients) := by
  have hrest : clients.map (fun d => if d.ptr = c'.ptr then c' else d) = clients := by
    conv_rhs => rw [← List.map_id clients]
    apply List.map_congr_left
    intro d hd
    rw [if_neg (hne d hd), id]
  have hmap : w.server.clients.map (fun d => if d.ptr = c'.ptr then c' else d) = c' :: clients := by
    rw [hw, List.map_cons, if_pos hptr, hrest]
  exact congrArg w.setClients hmap

/-- `close_client` locks a mutex that its caller must not hold. -/
theorem closeClient_locked {ptr : Nat} {c : Client} (hc : w.client ptr = .ok c)
    (hlocked : w.server.clntMutex = true) (status : Int) :
    closeClient status ptr w = .error .deadlock := by
  have hlock : ((w.note (.shutdown c.clientFd .rd)).setBase
      (eventFreeIf c.recvEvent (w.note (.shutdown c.clientFd .rd)).base)).lock =
      .error .deadlock := if_pos hlocked
  simp only [closeClient, hc, bind, Except.bind, hlock]

/-- **`on_accept`** ends in one of these ways. -/
theorem onAccept_accepting (hi : Idle w) (env : AcceptEnv) :
    Accepting w env (onAccept env w) := by
  have hfresh : ∀ d ∈ w.server.clients, d.ptr ≠ w.base.next := by
    intro d hd heq
    have hlt := hi.sound.lives.below d.conn (conn_mem hd)
    have hsame : d.conn.ptr = w.base.next := heq
    have hbase : w.endpoint.base.next = w.base.next := rfl
    omega
  unfold onAccept
  by_cases hfd : env.clientFd < 0
  · rw [if_pos hfd]
    exact .ignored (fun hgood => absurd hgood.fd (by omega))
  rw [if_neg hfd]
  by_cases hbig : env.clientFd > fdSetsize
  · rw [if_pos hbig]
    exact .refused (fun hgood => absurd hgood.small (by omega))
  rw [if_neg hbig]
  have hlock : (w.note (.accept env.clientFd)).lock = .ok (w.note (.accept env.clientFd)).locked :=
    lock_eq hi.unlocked
  have hmutex := hi.unlocked
  obtain ⟨⟨serverFd, listener, mutex, clients, lastCid, flags, acceptCallback, acceptContext,
    receiveCallback, closeCallback⟩, base, script, trace⟩ := w
  cases hmutex
  simp only [addClient, allocAndInitClient, hlock, bind, Except.bind]
  by_cases halloc : env.alloc = true
  · rw [if_pos halloc]
    dsimp only [World.note, World.locked, World.setBase, EventBase.alloc]
    cases hcid : getNextCid clients 65536 lastCid with
    | error e =>
        obtain rfl := getNextCid_fault hcid
        exact .searching hcid
    | ok cid =>
        dsimp only
        by_cases hinit : (afIpcUtilInitRequests env.reqPool env.reqMutex).1 < 0
        · rw [if_pos hinit]
          exact .dropped (fun hgood => hgood.init hinit) hcid
        · rw [if_neg hinit]
          dsimp only [pure, Except.pure, World.setClients]
          -- the client is linked, and the mutex still held
          generalize hrc : (afIpcUtilInitRequests env.reqPool env.reqMutex).2 = rc
          generalize hv : World.mk ⟨serverFd, listener, true, ⟨base.next, 0, cid, none, rc, 0, 0⟩ ::
            clients, cid, flags, acceptCallback, acceptContext, receiveCallback, closeCallback⟩
            ⟨base.events, base.next + 1⟩ script (trace ++ [.accept env.clientFd]) = v
          have hlist : v.server.clients = ⟨base.next, 0, cid, none, rc, 0, 0⟩ :: clients := by
            rw [← hv]
          have hclient : v.client base.next = .ok ⟨base.next, 0, cid, none, rc, 0, 0⟩ :=
            client_head hlist rfl
          have hset : v.setClient ⟨base.next, env.clientFd, cid, none, rc, 0, 0⟩ =
              v.setClients (⟨base.next, env.clientFd, cid, none, rc, 0, 0⟩ :: clients) :=
            setClient_head hlist rfl hfresh
          have hclient' : (v.setClients (⟨base.next, env.clientFd, cid, none, rc, 0, 0⟩ ::
              clients)).client base.next = .ok ⟨base.next, env.clientFd, cid, none, rc, 0, 0⟩ :=
            client_head rfl rfl
          simp only [hclient, hset]
          by_cases hevent : env.recvEvent = true
          · rw [if_pos hevent]
            simp only [hclient']
            have hset' : (v.setClients (⟨base.next, env.clientFd, cid, none, rc, 0, 0⟩ ::
                clients)).setClient
                  ⟨base.next, env.clientFd, cid, some (base.next + 1), rc, 0, 0⟩ =
                v.setClients (⟨base.next, env.clientFd, cid, some (base.next + 1), rc, 0, 0⟩ ::
                  clients) := setClient_head rfl rfl hfresh
            have hnext : (v.setClients (⟨base.next, env.clientFd, cid, none, rc, 0, 0⟩ ::
                clients)).base = ⟨base.events, base.next + 1⟩ := by
              rw [← hv]
              rfl
            simp only [eventNew, hnext, hset']
            subst hv
            subst hrc
            have hgood : env.Good := ⟨by omega, by omega, halloc, hinit⟩
            cases acceptCallback with
            | none => exact .quiet hgood hcid rfl
            | some cb =>
                have hclient : World.client (World.accepted ⟨⟨serverFd, listener, false, clients,
                    lastCid, flags, some cb, acceptContext, receiveCallback, closeCallback⟩, base,
                    script, trace⟩ env cid) base.next = .ok _ := client_head rfl rfl
                dsimp only [World.accepted, World.newClient, eventNew, EventBase.alloc] at hclient
                dsimp only [World.unlock, World.setBase, World.setClients]
                rw [hclient]
                have hgreet := @Accepting.greeted ⟨⟨serverFd, listener, false, clients, lastCid,
                  flags, some cb, acceptContext, receiveCallback, closeCallback⟩, base, script,
                  trace⟩ env cid hgood hcid hevent (fun hnone => by cases hnone)
                dsimp only [World.greeted, World.accepted, World.newClient, eventNew, EventBase.alloc,
                  World.note] at hgreet ⊢
                generalize runCallback _ = out at hgreet ⊢
                cases out with
                | error e => exact hgreet
                | ok v => exact hgreet
          · rw [if_neg hevent]
            have hlocked : (v.setClients (⟨base.next, env.clientFd, cid, none, rc, 0, 0⟩ ::
                clients)).server.clntMutex = true := by
              rw [← hv]
              rfl
            rw [closeClient_locked hclient' hlocked]
            exact .stuck (by simpa using hevent)
  · rw [if_neg halloc]
    exact .refused (fun hgood => halloc hgood.alloc)

/-- What `Accepting` leaves when the client is linked. -/
theorem accepted_spec (hi : Idle w) (hgood : env.Good)
    (hcid : getNextCid w.server.clients 65536 w.server.lastCid = .ok cid) :
    Idle (w.accepted env cid) ∧ Evolves w (w.accepted env cid) [] (fun _ => True) := by
  have hinit : ∀ pool ret, (afIpcUtilInitRequests pool ret).2.pendingRequests = [] ∧
      (afIpcUtilInitRequests pool ret).2.lastSeqId = 0 := by
    intro pool ret
    unfold afIpcUtilInitRequests
    split_ifs <;> exact ⟨rfl, rfl⟩
  obtain ⟨hpending, hlast⟩ := hinit env.reqPool env.reqMutex
  have harrive := @Endpoint.Step.arrive w.endpoint
    ⟨w.base.next, cid, none, (afIpcUtilInitRequests env.reqPool env.reqMutex).2⟩ env.clientFd rfl rfl
    hpending hlast (getNextCid_next hcid)
  have hwatch := @Endpoint.Step.watch ⟨⟨w.base.next, cid, none,
    (afIpcUtilInitRequests env.reqPool env.reqMutex).2⟩ :: w.endpoint.conns, cid,
    w.base.alloc.2, w.trace ++ [.accept env.clientFd]⟩ _ List.mem_cons_self rfl
  -- only the new record has the new address
  have hrest : w.endpoint.conns.map (fun d => if d.ptr = w.base.next then
      (w.newClient env cid).conn else d) = w.endpoint.conns := by
    conv_rhs => rw [← List.map_id w.endpoint.conns]
    apply List.map_congr_left
    intro d hd
    have hlt : d.ptr < w.base.next := hi.sound.lives.below d hd
    rw [if_neg (by omega), id]
  have hwatched : Endpoint.setBase (Endpoint.setConn ⟨⟨w.base.next, cid, none,
      (afIpcUtilInitRequests env.reqPool env.reqMutex).2⟩ :: w.endpoint.conns, cid,
      w.base.alloc.2, w.trace ++ [.accept env.clientFd]⟩ (w.newClient env cid).conn)
      (eventNew (.client w.base.next) w.base.alloc.2).2 = (w.accepted env cid).endpoint := by
    have hconns : (⟨w.base.next, cid, none, (afIpcUtilInitRequests env.reqPool env.reqMutex).2⟩ ::
        w.endpoint.conns).map (fun d => if d.ptr = w.base.next then (w.newClient env cid).conn
          else d) = (w.newClient env cid).conn :: w.endpoint.conns := by
      rw [List.map_cons, if_pos rfl, hrest]
    exact congrArg (fun conns => Endpoint.mk conns cid _ (w.trace ++ [.accept env.clientFd])) hconns
  have hsteps : w.endpoint.Steps (w.accepted env cid).endpoint := by
    rw [← hwatched]
    exact (Relation.ReflTransGen.single harrive).tail hwatch
  refine ⟨⟨hsteps.sound hi.sound, hi.unlocked, ?_, ?_⟩, ⟨hsteps, ?_, ?_, rfl⟩⟩
  · exact List.forall_mem_cons.mpr ⟨hgood.fd, hi.fds⟩
  · exact List.forall_mem_cons.mpr ⟨BitVec.zero_and, hi.unmarked⟩
  · exact takenOf_append _ _
  · exact fun id _ hid => List.mem_cons_of_mem _ hid

/-- A call that says nothing about a connection. -/
theorem note_spec (hi : Idle w) {c : Call} (hc : c.inert = true) :
    Idle (w.note c) ∧ Evolves w (w.note c) [] (fun _ => True) := by
  have hsteps : w.endpoint.Steps (w.note c).endpoint := .single (.note hc)
  refine ⟨⟨hsteps.sound hi.sound, hi.unlocked, hi.fds, hi.unmarked⟩,
    ⟨hsteps, ?_, fun _ _ hid => hid, rfl⟩⟩
  show takenOf (w.trace ++ [c]) = takenOf w.trace ++ []
  rw [takenOf_append]
  cases c <;> first | rfl | cases hc

theorem greeted_spec (hi : Idle w) (hgood : env.Good)
    (hcid : getNextCid w.server.clients 65536 w.server.lastCid = .ok cid) :
    Idle (w.greeted env cid) ∧ Evolves w (w.greeted env cid) [] (fun _ => True) ∧
      (w.newClient env cid).ident ∈ (w.greeted env cid).idents := by
  obtain ⟨hidle, hevolves⟩ := accepted_spec hi hgood hcid
  obtain ⟨hnoted, hnote⟩ := @note_spec _ hidle (.acceptCallback cid) rfl
  have hmem : w.newClient env cid ∈ ((w.accepted env cid).note
      (.acceptCallback cid)).server.clients := List.mem_cons_self
  obtain ⟨hset, hsets⟩ := @setRecord_spec _ _ hnoted hmem
    { w.newClient env cid with clientContext := env.context } rfl rfl BitVec.zero_and
  refine ⟨hset, (hevolves.trans hnote).trans hsets, ?_⟩
  exact hsets.keeps _ trivial (List.mem_map_of_mem hmem)

/-- `on_accept` behind `add_client`, if the client is still there. -/
theorem watchAccepted_spec {id : Nat × BitVec 16 × Int} (hi : Idle w) (hid : id ∈ w.idents) :
    ∃ w', watchAccepted id.1 w = .ok w' ∧ Idle w' ∧ Evolves w w' [] (fun _ => True) := by
  obtain ⟨c, hc, rfl, hclient⟩ := hi.of_ident hid
  unfold watchAccepted
  simp only [hclient, bind, Except.bind]
  cases c.recvEvent with
  | none => exact ⟨w, rfl, hi, .refl w _⟩
  | some e =>
      have hsteps : w.endpoint.Steps (w.setBase (eventAdd e w.base)).endpoint := .single (.added e)
      exact ⟨_, rfl, ⟨hsteps.sound hi.sound, hi.unlocked, hi.fds, hi.unmarked⟩,
        ⟨hsteps, (List.append_nil _).symm, fun _ _ h => h, rfl⟩⟩

/-- **`on_accept`** comes back, unless its callback releases the new client, no id is
    free or the client gets no receive event. -/
theorem onAccept_spec {S : Prop} (hi : Idle w) (hscript : S → Greets w env → ∀ cid,
    getNextCid w.server.clients 65536 w.server.lastCid = .ok cid →
      Spares (w.script.take 1) (w.newClient env cid).ident) :
    Safe (fun e => S ∧ e = .useAfterRelease)
      (fun w' => Idle w' ∧ Evolves w w' [] (fun _ => False)) (onAccept env w) := by
  have hweak : ∀ {v : World} {spared : Nat × BitVec 16 × Int → Prop},
      Evolves w v [] spared → Evolves w v [] (fun _ => False) :=
    fun h => h.mono (fun _ hf => hf.elim)
  have hend := onAccept_accepting hi env
  generalize onAccept env w = out at hend
  cases hend with
  | ignored hbad => exact ⟨hi, .refl w _⟩
  | refused hbad =>
      obtain ⟨hnoted, hnote⟩ := @note_spec _ hi (.accept env.clientFd) rfl
      obtain ⟨hnoted', hnote'⟩ := @note_spec _ hnoted (.closeFd env.clientFd) rfl
      exact ⟨hnoted', hweak (hnote.trans hnote')⟩
  | searching hcid => exact fun hbad => by cases hbad.2
  | @dropped cid hbad hcid =>
      have hrefuse : w.endpoint.Steps (World.note { w with
          server := { w.server with lastCid := cid }, base := w.base.alloc.2 }
            (.accept env.clientFd)).endpoint := .single (.refuse (getNextCid_next hcid))
      have hidle : Idle (World.note { w with
          server := { w.server with lastCid := cid }, base := w.base.alloc.2 }
            (.accept env.clientFd)) :=
        ⟨hrefuse.sound hi.sound, hi.unlocked, hi.fds, hi.unmarked⟩
      obtain ⟨hnoted, hnote⟩ := @note_spec _ hidle (.closeFd env.clientFd) rfl
      have hfirst : Evolves w (World.note { w with
          server := { w.server with lastCid := cid }, base := w.base.alloc.2 }
            (.accept env.clientFd)) [] (fun _ => True) :=
        ⟨hrefuse, takenOf_append _ _, fun _ _ hid => hid, rfl⟩
      exact ⟨hnoted, hweak (hfirst.trans hnote)⟩
  | stuck hevent => exact fun hbad => by cases hbad.2
  | @quiet cid hgood hcid hcb =>
      obtain ⟨hidle, hevolves⟩ := accepted_spec hi hgood hcid
      have hmem : (w.newClient env cid).ident ∈ (w.accepted env cid).idents := List.mem_cons_self
      obtain ⟨w', hw', hidle', hwatch⟩ := watchAccepted_spec hidle hmem
      show Safe _ _ (watchAccepted (w.newClient env cid).ident.1 _)
      rw [hw']
      exact ⟨hidle', hweak (hevolves.trans hwatch)⟩
  | @greeted cid hgood hcid hevent hcb =>
      obtain ⟨hidle, hevolves, hmem⟩ := greeted_spec hi hgood hcid
      obtain ⟨v, hv, hcalled, hcalls, _⟩ := runCallback_spec hidle
      rw [hv]
      show Safe _ _ (watchAccepted (w.newClient env cid).ident.1 v)
      by_cases hlive : (w.newClient env cid).ident ∈ v.idents
      · obtain ⟨w', hw', hidle', hwatch⟩ := watchAccepted_spec hcalled hlive
        rw [hw']
        exact ⟨hidle', hweak ((hweak hevolves).trans
          ((hcalls.mono fun _ hf => hf.elim).trans (hwatch.mono fun _ _ => trivial)))⟩
      · -- the accept callback has released the client
        have hgone := gone_of_not_mem hidle hmem ((runCallback_shrinks _).of_ok hv) hlive
        unfold watchAccepted
        simp only [hgone.client, bind, Except.bind]
        have hspares := fun hs => hscript hs ⟨hgood, hevent, hcb⟩ cid hcid
        exact fun hbad => hlive (hcalls.keeps _ (hspares hbad.1) hmem)

end Accept

end AfIpc.Ipcs
