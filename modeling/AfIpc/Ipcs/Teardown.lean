/-
  AfIpc.Ipcs.Teardown

  `af_ipcs_close` after a run.  Its loop over the clients is under a test of
  `SERVER_FLAGS_MUTEX_INITIALIZED`, which no function sets: `server->flags` is 0
  from `calloc` to the end of every run, and the clients are left as they are.
-/

import AfIpc.Ipcs.Runs

namespace AfIpc.Ipcs

open AfIpc.Lib AfIpc.Ipc

/-- The event base that `af_ipcs_close` leaves. -/
def closedBase (w : World) : EventBase := (afIpcsClose w).1

/-- The calls of `af_ipcs_close` before the client pool is destroyed. -/
def closingCalls (w : World) : List Call := (afIpcsClose w).2.1

/-- `af_ipcs_close` ends every connection: the sockets are shut down and closed, no
    event of a client and no timer of its requests is left, and each client is
    reported closed once. -/
structure TearsDown (w : World) : Prop where
  sockets : ∀ c ∈ w.server.clients, .shutdown c.clientFd .rdwr ∈ closingCalls w ∧
    .closeFd c.clientFd ∈ closingCalls w
  clients : (closedBase w).All (fun _ arg => ∀ ptr, arg ≠ .client ptr)
  timers : (closedBase w).All (fun _ arg => ∀ c ∈ w.server.clients,
    ∀ r ∈ c.reqControl.pendingRequests, arg ≠ .request r.ptr)
  reported : w.server.closeCallback.isSome → ∀ c ∈ w.server.clients,
    (closingCalls w).count (.closeCallback c.ptr statusOk c.cid c.clientContext) = 1

section Teardown

variable {w : World}

/-- Without the flag only the listener is closed. -/
theorem afIpcsClose_unflagged (hflags : w.server.flags = 0) :
    closedBase w = eventFreeIf w.server.serverListenerEvent w.base ∧
      closingCalls w = (if w.server.serverFd ≠ -1 then [.shutdown w.server.serverFd .rd] else []) ++
        if w.server.serverFd ≠ -1 then [.closeFd w.server.serverFd] else [] := by
  have hmutex : ¬ (w.server.flags &&& serverFlagsMutexInitialized ≠ 0) := by
    rw [hflags, not_not]
    exact BitVec.zero_and
  refine ⟨?_, ?_⟩
  · simp only [closedBase, afIpcsClose]
    rw [if_neg hmutex]
  · simp only [closingCalls, afIpcsClose]
    rw [if_neg hmutex]

/-- In an idle state without the flag, the teardown misses every client there is. -/
theorem tearsDown_iff_of_unflagged (hi : Idle w) (hflags : w.server.flags = 0) :
    TearsDown w ↔ w.server.clients = [] := by
  obtain ⟨hbase, hcalls⟩ := afIpcsClose_unflagged hflags
  refine ⟨?_, ?_⟩
  · intro htears
    rw [List.eq_nil_iff_forall_not_mem]
    intro c hc
    have hshutdown := (htears.sockets c hc).1
    rw [hcalls] at hshutdown
    split_ifs at hshutdown <;> simp at hshutdown
  · intro hnone
    have hno : ∀ c, c ∉ w.server.clients := fun c => by rw [hnone]; exact List.not_mem_nil
    refine ⟨fun c hc => absurd hc (hno c), ?_, ?_, fun _ c hc => absurd hc (hno c)⟩
    · -- an event of a client is one of a connection that is live
      rw [hbase]
      have hnever : w.base.All (fun _ arg => ∀ ptr, arg ≠ .client ptr) := by
        intro e he ptr harg
        obtain ⟨d, hd, _⟩ := hi.sound.lives.watched e he ptr harg
        obtain ⟨c, hc, _⟩ := List.mem_map.mp hd
        exact hno c hc
      exact (hnever.eventFreeIf w.server.serverListenerEvent).mono (fun _ _ h => h.1)
    · intro e _ c hc
      exact absurd hc (hno c)

end Teardown

/-- **`af_ipcs_close` tears down no client.**  After any run from a successful open
    it does what it should for the clients exactly when there are none. -/
theorem serverRun_tearsDown_iff {env : OpenEnv} {base : EventBase}
    {acceptCallback : Option Callback} {acceptContext : Context}
    {receiveCallback closeCallback : Option Callback} {w₀ : World} (hbase : BareBase base)
    (hopen : afIpcsOpen env base acceptCallback acceptContext receiveCallback closeCallback =
      some w₀) (events : List ServerEvent) {w : World} (hrun : run serverStep w₀ events = .ok w) :
    TearsDown w ↔ w.server.clients = [] := by
  obtain ⟨hidle, _, hflags⟩ := (serverRun_spec (idle_of_open hbase hopen) events).of_ok hrun
  have hzero : w₀.server.flags = 0 := by rw [opened_eq hopen]
  exact tearsDown_iff_of_unflagged hidle (hflags.trans hzero)

/-- One client came, and was closed before the server. -/
theorem serverRun_tearsDown_iff_closed :
    ∃ w₀, afIpcsOpen .good ⟨[], 0⟩ (some 1) 0 (some 2) (some 3) = some w₀ ∧
      ∃ w, run serverStep w₀ [.accept (.good 4) [], .call (.closeClient 1)] = .ok w ∧
        (TearsDown w ↔ w.server.clients = []) := by
  have hbase : BareBase ⟨[], 0⟩ := fun e he => absurd he List.not_mem_nil
  have hopen : afIpcsOpen .good ⟨[], 0⟩ (some 1) 0 (some 2) (some 3) = some _ := rfl
  refine ⟨_, hopen, _, rfl, ?_⟩
  apply serverRun_tearsDown_iff hbase hopen [.accept (.good 4) [], .call (.closeClient 1)]
  rfl

/-- One client is connected when the server is closed: its socket stays open, and
    its receive event stays with the event base. -/
theorem close_leaves_client :
    ∃ w₀, afIpcsOpen .good ⟨[], 0⟩ (some 1) 0 (some 2) (some 3) = some w₀ ∧
      ∃ w, run serverStep w₀ [.accept (.good 4) []] = .ok w ∧
        closingCalls w = [.shutdown 3 .rd, .closeFd 3] ∧
        closedBase w = ⟨[⟨2, .client 1, true⟩], 3⟩ ∧ ¬ TearsDown w := by
  have hopen : afIpcsOpen .good ⟨[], 0⟩ (some 1) 0 (some 2) (some 3) = some _ := rfl
  refine ⟨_, hopen, _, rfl, rfl, rfl, fun htears => ?_⟩
  exact htears.clients ⟨2, .client 1, true⟩ List.mem_cons_self 1 rfl

end AfIpc.Ipcs
