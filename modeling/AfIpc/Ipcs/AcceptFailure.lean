/-
  AfIpc.Ipcs.AcceptFailure

  A client that cannot be added.  `add_client` holds the client mutex while it
  allocates the record, initialises the request table and makes the receive
  event.  Without a record, or without a pool for the requests, everything is given
  back.  An error of `pthread_mutex_init`, which is positive, is taken for success;
  and without an event `close_client` is called, which locks the same mutex.
-/

import AfIpc.Ipcs.Runs

namespace AfIpc.Ipcs

open AfIpc.Lib AfIpc.Ipc

/-- `af_ipc_util_init_requests` fails: it returns 0 otherwise. -/
def AcceptEnv.initFails (env : AcceptEnv) : Prop :=
  (afIpcUtilInitRequests env.reqPool env.reqMutex).1 ≠ 0

/-- It returns a negative number, which is what `alloc_and_init_client` tests for:
    there is no pool, or `pthread_mutex_init` returns one. -/
def AcceptEnv.initNegative (env : AcceptEnv) : Prop := env.reqPool = false ∨ env.reqMutex < 0

/-- One of the calls of `add_client` fails. -/
def AcceptEnv.Fails (env : AcceptEnv) : Prop :=
  env.alloc = false ∨ env.initFails ∨ env.recvEvent = false

/-- There is an id to give. -/
def World.HasFreeCid (w : World) : Prop := ∃ cid, cid ≠ 0 ∧ ∀ c ∈ w.server.clients, c.cid ≠ cid

/-- What is left when nothing has been added: the same list, the mutex free, and
    no event but those there were. -/
structure World.SameClients (w w' : World) : Prop where
  clients : w'.server.clients = w.server.clients
  unlocked : w'.server.clntMutex = false
  events : w'.base.events = w.base.events

/-- A failed accept leaves the server as it was.  `add_client` returns NULL and
    makes no call; `on_accept` closes the descriptor and does nothing else. -/
structure LeavesServer (w : World) (env : AcceptEnv) : Prop where
  added : ∃ w', addClient env w = .ok (none, w') ∧ w.SameClients w' ∧ w'.trace = w.trace
  accepted : ∃ w', onAccept env w = .ok w' ∧ w.SameClients w' ∧
    w'.trace = w.trace ++ [.accept env.clientFd, .closeFd env.clientFd]

section Failure

variable {w : World} {env : AcceptEnv}

theorem initNegative_iff :
    env.initNegative ↔ (afIpcUtilInitRequests env.reqPool env.reqMutex).1 < 0 := by
  unfold AcceptEnv.initNegative afIpcUtilInitRequests
  cases env.reqPool with
  | true => simp
  | false => simp

/-- The search for an id succeeds exactly if there is one. -/
theorem getNextCid_iff (w : World) :
    (∃ cid, getNextCid w.server.clients 65536 w.server.lastCid = .ok cid) ↔ w.HasFreeCid := by
  refine ⟨?_, ?_⟩
  · rintro ⟨cid, hcid⟩
    exact ⟨cid, getNextCid_ok hcid⟩
  · rintro ⟨cid, hzero, hfree⟩
    cases hsearch : getNextCid w.server.clients 65536 w.server.lastCid with
    | ok cid => exact ⟨cid, rfl⟩
    | error e =>
        -- every id from 1 on has been tried, so this one as well
        have hlt := cid.isLt
        have hpos : cid.toNat ≠ 0 := fun h => hzero (BitVec.eq_of_toNat_eq h)
        obtain ⟨c, hc, hcid⟩ := getNextCid_error hsearch
          ((cid.toNat - 1 + (65535 - w.server.lastCid.toNat % 65535)) % 65535) (by omega)
        have hsame : c.cid.toNat = cid.toNat := by
          rw [hcid]
          omega
        exact absurd (BitVec.eq_of_toNat_eq hsame) (hfree c hc)

-- ============================================================================
-- The ways to fail
-- ============================================================================

/-- No record. -/
theorem addClient_noAlloc (hunlocked : w.server.clntMutex = false) (halloc : env.alloc = false) :
    ∃ w', addClient env w = .ok (none, w') ∧ w.SameClients w' ∧ w'.trace = w.trace := by
  have halloc' : ¬ env.alloc = true := by simp [halloc]
  have hcreate : allocAndInitClient env w.locked = .ok (none, w.locked) := if_neg halloc'
  refine ⟨w.locked.unlock, ?_, ⟨rfl, rfl, rfl⟩, rfl⟩
  simp only [addClient, lock_eq hunlocked, hcreate, bind, Except.bind]
  rfl

/-- A record, but no request table: the id is used up and the record given back. -/
theorem allocAndInitClient_noTable (halloc : env.alloc = true) (hinit : env.initNegative)
    {cid : BitVec 16} (hcid : getNextCid w.server.clients 65536 w.server.lastCid = .ok cid) :
    allocAndInitClient env w =
      .ok (none, { w with server := { w.server with lastCid := cid }, base := w.base.alloc.2 }) := by
  have hinit' := initNegative_iff.mp hinit
  have hcid' : getNextCid (w.setBase w.base.alloc.2).server.clients 65536
      (w.setBase w.base.alloc.2).server.lastCid = .ok cid := hcid
  rw [allocAndInitClient, if_pos halloc]
  simp only [hcid', bind, Except.bind]
  rw [if_pos hinit']
  rfl

/-- No id is free: the search goes round for ever. -/
theorem allocAndInitClient_noCid (halloc : env.alloc = true) {e : Fault}
    (hcid : getNextCid w.server.clients 65536 w.server.lastCid = .error e) :
    allocAndInitClient env w = .error e := by
  have hcid' : getNextCid (w.setBase w.base.alloc.2).server.clients 65536
      (w.setBase w.base.alloc.2).server.lastCid = .error e := hcid
  rw [allocAndInitClient, if_pos halloc]
  simp only [hcid', bind, Except.bind]

/-- A client that heads the list. -/
theorem allocAndInitClient_linked (halloc : env.alloc = true) (hinit : ¬ env.initNegative)
    {cid : BitVec 16} (hcid : getNextCid w.server.clients 65536 w.server.lastCid = .ok cid) :
    ∃ v, allocAndInitClient env w = .ok (some w.base.next, v) ∧
      v.server.clntMutex = w.server.clntMutex ∧ ∃ c, c.ptr = w.base.next ∧
        v.server.clients = c :: w.server.clients := by
  have hinit' := mt initNegative_iff.mpr hinit
  have hcid' : getNextCid (w.setBase w.base.alloc.2).server.clients 65536
      (w.setBase w.base.alloc.2).server.lastCid = .ok cid := hcid
  rw [allocAndInitClient, if_pos halloc]
  simp only [hcid', bind, Except.bind]
  rw [if_neg hinit']
  exact ⟨_, rfl, rfl, _, rfl, rfl⟩

theorem addClient_noTable (hunlocked : w.server.clntMutex = false) (halloc : env.alloc = true)
    (hinit : env.initNegative) {cid : BitVec 16}
    (hcid : getNextCid w.server.clients 65536 w.server.lastCid = .ok cid) :
    ∃ w', addClient env w = .ok (none, w') ∧ w.SameClients w' ∧ w'.trace = w.trace := by
  have hcreate := @allocAndInitClient_noTable w.locked env halloc hinit cid hcid
  refine ⟨World.unlock { w.locked with
    server := { w.locked.server with lastCid := cid }, base := w.base.alloc.2 }, ?_,
    ⟨rfl, rfl, rfl⟩, rfl⟩
  simp only [addClient, lock_eq hunlocked, hcreate, bind, Except.bind]
  rfl

theorem addClient_noCid (hunlocked : w.server.clntMutex = false) (halloc : env.alloc = true)
    {e : Fault} (hcid : getNextCid w.server.clients 65536 w.server.lastCid = .error e) :
    addClient env w = .error e := by
  have hcreate := @allocAndInitClient_noCid w.locked env halloc e hcid
  simp only [addClient, lock_eq hunlocked, hcreate, bind, Except.bind]

/-- A client that has been linked: `add_client` does not return NULL any more, with a
    receive event or without one. -/
theorem addClient_linked (hunlocked : w.server.clntMutex = false) (halloc : env.alloc = true)
    (hinit : ¬ env.initNegative) {cid : BitVec 16}
    (hcid : getNextCid w.server.clients 65536 w.server.lastCid = .ok cid) (w' : World) :
    addClient env w ≠ .ok (none, w') := by
  obtain ⟨v, hcreate, hmutex, c, hptr, hlist⟩ :=
    @allocAndInitClient_linked w.locked env halloc hinit cid hcid
  have hclient : v.client w.locked.base.next = .ok c := client_head hlist hptr
  intro hnull
  rw [addClient, lock_eq hunlocked] at hnull
  obtain ⟨u, hu, hnull⟩ := bind_eq_ok.mp hnull
  obtain rfl : w.locked = u := Except.ok.inj hu
  obtain ⟨created, hcreated, hnull⟩ := bind_eq_ok.mp hnull
  obtain rfl : (some w.locked.base.next, v) = created :=
    Except.ok.inj (hcreate.symm.trans hcreated)
  obtain ⟨d, hd, hnull⟩ := bind_eq_ok.mp hnull
  obtain rfl : c = d := Except.ok.inj (hclient.symm.trans hd)
  by_cases hevent : env.recvEvent = true
  · -- the pointer is passed on, whatever the accept callback does
    rw [if_pos hevent] at hnull
    obtain ⟨d, -, hnull⟩ := bind_eq_ok.mp hnull
    obtain ⟨u, -, hrest⟩ := bind_eq_ok.mp hnull
    by_cases hcb : u.unlock.server.acceptCallback = none
    · simp only [hcb] at hrest
      cases hrest
    · obtain ⟨cb, hcb⟩ := Option.ne_none_iff_exists'.mp hcb
      simp only [hcb] at hrest
      obtain ⟨d, -, hrest⟩ := bind_eq_ok.mp hrest
      obtain ⟨x, -, hrest⟩ := bind_eq_ok.mp hrest
      cases hrest
  · -- `close_client` finds the client at the head too, with its descriptor
    have hlist' : (v.setClient { c with clientFd := env.clientFd }).server.clients =
        { c with clientFd := env.clientFd } :: w.locked.server.clients.map (fun d =>
          if d.ptr = c.ptr then { c with clientFd := env.clientFd } else d) := by
      show v.server.clients.map _ = _
      rw [hlist, List.map_cons, if_pos rfl]
    have hfound := client_head hlist' hptr
    have hlocked : (v.setClient { c with clientFd := env.clientFd }).server.clntMutex = true := hmutex
    rw [if_neg hevent, closeClient_locked hfound hlocked] at hnull
    cases hnull

-- ============================================================================
-- Both levels
-- ============================================================================

/-- Where `add_client` gives everything back, `on_accept` closes the descriptor. -/
theorem leaves_of_null (hfd : 0 ≤ env.clientFd) (hsmall : env.clientFd ≤ fdSetsize)
    (hadd : ∃ w', addClient env w = .ok (none, w') ∧ w.SameClients w' ∧ w'.trace = w.trace)
    (hnoted : ∃ w', addClient env (w.note (.accept env.clientFd)) = .ok (none, w') ∧
      (w.note (.accept env.clientFd)).SameClients w' ∧
      w'.trace = (w.note (.accept env.clientFd)).trace) : LeavesServer w env := by
  obtain ⟨w', hnull, hsame, htrace⟩ := hnoted
  refine ⟨hadd, w'.note (.closeFd env.clientFd), ?_, ⟨hsame.clients, hsame.unlocked, hsame.events⟩,
    ?_⟩
  · unfold onAccept
    rw [if_neg (by omega), if_neg (by omega), hnull]
    rfl
  · show w'.trace ++ [.closeFd env.clientFd] = _
    rw [htrace]
    show (w.trace ++ [.accept env.clientFd]) ++ [.closeFd env.clientFd] = _
    rw [List.append_assoc]
    rfl

/-- An accept leaves the server as it was exactly if the pool has no record, or the
    request table is seen to fail while there is an id to give. -/
theorem leaves_iff (hunlocked : w.server.clntMutex = false) (hfd : 0 ≤ env.clientFd)
    (hsmall : env.clientFd ≤ fdSetsize) :
    LeavesServer w env ↔ env.alloc = false ∨ (env.initNegative ∧ w.HasFreeCid) := by
  have hunlocked' : (w.note (.accept env.clientFd)).server.clntMutex = false := hunlocked
  refine ⟨?_, ?_⟩
  · rintro ⟨⟨w', hadd, _, _⟩, _⟩
    by_cases halloc : env.alloc = true
    · right
      cases hcid : getNextCid w.server.clients 65536 w.server.lastCid with
      | error e =>
          rw [addClient_noCid hunlocked halloc hcid] at hadd
          cases hadd
      | ok cid =>
          refine ⟨?_, (getNextCid_iff w).mp ⟨cid, hcid⟩⟩
          by_contra hinit
          exact addClient_linked hunlocked halloc hinit hcid w' hadd
    · left
      simpa using halloc
  · intro hearly
    by_cases halloc : env.alloc = true
    · have hinit : env.initNegative ∧ w.HasFreeCid := by
        rcases hearly with hnone | hinit
        · rw [halloc] at hnone
          cases hnone
        · exact hinit
      obtain ⟨cid, hcid⟩ := (getNextCid_iff w).mpr hinit.2
      exact leaves_of_null hfd hsmall (addClient_noTable hunlocked halloc hinit.1 hcid)
        (addClient_noTable hunlocked' halloc hinit.1 hcid)
    · have hnone : env.alloc = false := by simpa using halloc
      exact leaves_of_null hfd hsmall (addClient_noAlloc hunlocked hnone)
        (addClient_noAlloc hunlocked' hnone)

/-- **A failed accept**, whichever of the calls of `add_client` fails, leaves the server
    as it was exactly in these two cases. -/
theorem leavesServer_iff (hunlocked : w.server.clntMutex = false) (hfd : 0 ≤ env.clientFd)
    (hsmall : env.clientFd ≤ fdSetsize) :
    (env.Fails → LeavesServer w env) ↔
      (env.Fails → env.alloc = false ∨ (env.initNegative ∧ w.HasFreeCid)) :=
  imp_congr_right (fun _ => leaves_iff hunlocked hfd hsmall)

end Failure

/-- The second client's request table gets no pool: the first client is all there is
    left, and descriptor 5 is closed. -/
theorem leavesServer_iff_second :
    ∃ w₀, afIpcsOpen .good ⟨[], 0⟩ (some 1) 0 (some 2) (some 3) = some w₀ ∧
      ∃ w, run serverStep w₀ [.accept (.good 4) []] = .ok w ∧
        w.server.clients.length = 1 ∧
        ((AcceptEnv.Fails ⟨5, true, false, 0, true, 0⟩ →
            LeavesServer w ⟨5, true, false, 0, true, 0⟩) ↔
          (AcceptEnv.Fails ⟨5, true, false, 0, true, 0⟩ →
            AcceptEnv.alloc ⟨5, true, false, 0, true, 0⟩ = false ∨
              (AcceptEnv.initNegative ⟨5, true, false, 0, true, 0⟩ ∧ w.HasFreeCid))) := by
  refine ⟨_, rfl, _, rfl, rfl, ?_⟩
  apply leavesServer_iff
  · rfl
  · show (0 : Int) ≤ 5
    omega
  · show (5 : Int) ≤ 1024
    omega

/-- The first client gets no receive event: `add_client` locks the client mutex twice and
    does not return.  Nor does an error of `pthread_mutex_init` keep the client out. -/
theorem accept_deadlocks :
    ∃ w₀, afIpcsOpen .good ⟨[], 0⟩ (some 1) 0 (some 2) (some 3) = some w₀ ∧
      addClient ⟨4, true, true, 0, false, 0⟩ w₀ = .error .deadlock ∧
      onAccept ⟨4, true, true, 0, false, 0⟩ w₀ = .error .deadlock ∧
      ¬ LeavesServer w₀ ⟨4, true, true, 0, false, 0⟩ ∧
      (∃ w, onAccept ⟨4, true, true, 12, true, 0⟩ w₀ = .ok w ∧ w.server.clients.length = 1) ∧
      ¬ LeavesServer w₀ ⟨4, true, true, 12, true, 0⟩ := by
  have hopen : afIpcsOpen .good ⟨[], 0⟩ (some 1) 0 (some 2) (some 3) = some _ := rfl
  refine ⟨_, hopen, rfl, rfl, ?_, ⟨_, rfl, rfl⟩, ?_⟩
  · rintro ⟨⟨w', hadd, _, _⟩, _⟩
    cases hadd
  · rintro ⟨⟨w', hadd, _, _⟩, _⟩
    cases hadd

end AfIpc.Ipcs
