/-
  AfIpc.Ipcs.Descriptors

  Where the descriptors go that `accept` has returned.  Each is either closed at
  once, or becomes the descriptor of one client record and is closed when
  `close_client` releases the record.  `KeptByEvents` extends what every call of the
  application keeps to what every event keeps but an accept, so that the books need
  only be balanced for the few things that are done to the server.
-/

import AfIpc.Ipcs.Runs

namespace AfIpc.Ipcs

open AfIpc.Lib AfIpc.Ipc

-- ============================================================================
-- What every event keeps
-- ============================================================================

/-- A relation of the state before to the state after which each thing that an event
    other than an accept does keeps. -/
structure KeptByEvents (R : World → World → Prop) : Prop extends Kept R where
  observe : ∀ (w : World) (c : Call), c.heard = true → R w (w.note c)
  flags : ∀ (w : World) c flags, c ∈ w.server.clients →
    R w (w.setClient { c with flags := flags })

section KeptByEvents

variable {R : World → World → Prop} {w : World}

/-- A frame, with whatever its callback does. -/
theorem KeptByEvents.handleFrame (hR : KeptByEvents R) (ptr : Nat) (cid : BitVec 16)
    (callback : Option Callback) (context : Context) (f : Frame) (w : World) :
    Safe anyFault (R w) (handleFrame (serverReceiver ptr cid callback context) f w) := by
  have hnoted : R w (w.note (.frame ptr f)) := hR.observe w _ rfl
  have hcalled : ∀ u, R w u → Safe anyFault (R w) (runCallback u) := fun u hu =>
    (hR.callback u).mono (fun _ hv => hR.trans hu hv)
  simp only [Ipc.handleFrame, serverReceiver]
  split_ifs with hnew
  · cases callback with
    | none => exact hnoted
    | some cb => exact hcalled _ (hR.trans hnoted (hR.observe _ _ rfl))
  · cases hclient : (w.note (.frame ptr f)).client ptr with
    | error e => exact not_false
    | ok c =>
        simp only [bind, Except.bind, pure, Except.pure]
        cases takeResponse (getSeqId f.seqNum) c.reqControl (w.note (.frame ptr f)).base with
        | mk found rest =>
            obtain ⟨rc, base⟩ := rest
            cases found with
            | none => exact hnoted
            | some req =>
                have hset := hR.trans hnoted (hR.table _ c rc base (client_mem hclient).1)
                have hheard := hR.observe (((w.note (.frame ptr f)).setClient
                  { c with reqControl := rc }).setBase base)
                  (.responseCallback ptr req statusOk (getSeqId f.seqNum) f.payload) rfl
                dsimp only
                cases req.responseCallback with
                | none => exact hset
                | some cb => exact hcalled _ (hR.trans hset hheard)

/-- **The receive loop**, whatever `recv` returns. -/
theorem KeptByEvents.onRecv (hR : KeptByEvents R) (ptr : Nat) (results : List RecvResult)
    (w : World) : Safe anyFault (R w) (onRecv ptr results w) := by
  refine recvLoop_keeps (I := R w) (fun v hv => ?_) (fun v hv => ?_)
    (fun status v hv => (hR.close v status ptr).mono (fun _ hu => hR.trans hv hu)) results
    (hR.refl w)
  · simp only [serverHooks]
    cases hclient : v.client ptr with
    | error e => exact not_false
    | ok c =>
        have hentered := hR.flags v c (c.flags ||| clientFlagsInReceive) (client_mem hclient).1
        refine ⟨hR.trans hv hentered, fun f u hu => ?_⟩
        exact (hR.handleFrame ptr _ _ _ f u).mono (fun _ hx => hR.trans hu hx)
  · simp only [serverHooks]
    cases hclient : v.client ptr with
    | error e => exact not_false
    | ok c =>
        exact hR.trans hv (hR.flags v c (c.flags &&& ~~~clientFlagsInReceive) (client_mem hclient).1)

/-- **A timer**, with whatever its callback does. -/
theorem KeptByEvents.onTimeout (hR : KeptByEvents R) (event : Nat) (w : World) :
    Safe anyFault (R w) (onTimeout event w) := by
  unfold Ipcs.onTimeout
  cases w.base.timerOf event with
  | none => exact hR.refl w
  | some ptr =>
      dsimp only
      cases howner : w.ownerOf ptr with
      | none => exact not_false
      | some c =>
          dsimp only
          cases afIpcOnTimeout ptr c.reqControl (timerFired event w.base) with
          | error e => exact not_false
          | ok out =>
              obtain ⟨req, rc, base⟩ := out
              have hset := hR.table w c rc base (ownerOf_mem howner).1
              have hheard := hR.observe ((w.setClient { c with reqControl := rc }).setBase base)
                (.responseCallback c.ptr req statusTimeout 0 []) rfl
              simp only [bind, Except.bind]
              cases req.responseCallback with
              | none => exact hset
              | some cb =>
                  exact (hR.callback _).mono (fun _ hu => hR.trans (hR.trans hset hheard) hu)

end KeptByEvents

-- ============================================================================
-- The books
-- ============================================================================

/-- The descriptors of the clients that are connected. -/
def openFds (w : World) : List Int := w.server.clients.map Client.clientFd

/-- What `accept` has returned, in order. -/
def acceptedFds (trace : List Call) : List Int :=
  trace.filterMap (fun c => match c with
    | .accept fd => some fd
    | _ => none)

/-- What has been closed, in order. -/
def closedFds (trace : List Call) : List Int :=
  trace.filterMap (fun c => match c with
    | .closeFd fd => some fd
    | _ => none)

@[simp] theorem acceptedFds_append (t u : List Call) :
    acceptedFds (t ++ u) = acceptedFds t ++ acceptedFds u := List.filterMap_append

@[simp] theorem closedFds_append (t u : List Call) :
    closedFds (t ++ u) = closedFds t ++ closedFds u := List.filterMap_append

/-- Nothing is accepted, and what is open or closed is what was open or closed. -/
structure Balanced (w w' : World) : Prop where
  ptrs : (w'.server.clients.map Client.ptr).Nodup
  accepted : acceptedFds w'.trace = acceptedFds w.trace
  fds : (openFds w' ++ closedFds w'.trace).Perm (openFds w ++ closedFds w.trace)

/-- As long as no two records have one address. -/
def Balances (w w' : World) : Prop :=
  (w.server.clients.map Client.ptr).Nodup → Balanced w w'

/-- What has been accepted is open or closed, once each. -/
def Accounted (w : World) : Prop :=
  (acceptedFds w.trace).Perm (openFds w ++ closedFds w.trace)

section Balances

variable {w w' : World}

theorem Balanced.accounted (h : Balanced w w') (hw : Accounted w) : Accounted w' := by
  rw [Accounted, h.accepted]
  exact List.Perm.trans hw h.fds.symm

/-- Calls that move no descriptor. -/
theorem balances_of_calls {calls : List Call} (hclients : w'.server.clients = w.server.clients)
    (htrace : w'.trace = w.trace ++ calls) (haccepted : acceptedFds calls = [])
    (hclosed : closedFds calls = []) : Balances w w' := by
  intro hnodup
  refine ⟨?_, ?_, ?_⟩
  · rw [hclients]
    exact hnodup
  · rw [htrace, acceptedFds_append, haccepted, List.append_nil]
  · rw [openFds, hclients, htrace, closedFds_append, hclosed, List.append_nil]
    exact List.Perm.refl _

/-- A record that keeps its address and its descriptor. -/
theorem balances_setClient {c c' : Client} (hc : c ∈ w.server.clients) (hptr : c'.ptr = c.ptr)
    (hfd : c'.clientFd = c.clientFd) : Balances w (w.setClient c') := by
  intro hnodup
  have hkey : ∀ {β : Type} (key : Client → β), key c' = key c →
      (w.setClient c').server.clients.map key = w.server.clients.map key := by
    intro β key hkey
    show (w.server.clients.map _).map key = _
    rw [List.map_map]
    apply List.map_congr_left
    intro d hd
    show key (if d.ptr = c'.ptr then c' else d) = key d
    split_ifs with heq
    · rw [List.inj_on_of_nodup_map hnodup hd hc (heq.trans hptr), hkey]
    · rfl
  refine ⟨?_, rfl, ?_⟩
  · rw [hkey Client.ptr hptr]
    exact hnodup
  · rw [openFds, hkey Client.clientFd hfd]
    exact List.Perm.refl _

/-- `close_client` closes the descriptor of the record it releases. -/
theorem balances_closed {c : Client} (hc : c ∈ w.server.clients) (status : Int) :
    Balances w (w.closed status c) := by
  intro hnodup
  have hcalls : acceptedFds (closeCalls status c w.server.closeCallback) = [] ∧
      closedFds (closeCalls status c w.server.closeCallback) = [c.clientFd] := by
    unfold closeCalls
    split_ifs <;> exact ⟨rfl, rfl⟩
  obtain ⟨d, before, after, -, hd, hlist, herase⟩ :=
    List.exists_of_eraseP (p := fun d : Client => decide (d.ptr = c.ptr)) hc (by simp)
  obtain rfl : d = c :=
    List.inj_on_of_nodup_map hnodup (by rw [hlist]; simp) hc (by simpa using hd)
  refine ⟨?_, ?_, ?_⟩
  · exact hnodup.sublist (List.eraseP_sublist.map _)
  · show acceptedFds (w.trace ++ _) = _
    rw [acceptedFds_append, hcalls.1, List.append_nil]
  · show ((w.server.clients.eraseP _).map Client.clientFd ++ closedFds (w.trace ++ _)).Perm _
    rw [closedFds_append, hcalls.2, herase, openFds, hlist, List.map_append, List.map_append,
      List.map_cons, List.append_assoc, List.append_assoc, List.cons_append]
    refine List.Perm.append_left _ ?_
    rw [← List.append_assoc]
    exact List.perm_append_singleton _ _

theorem keptByEvents_balances : KeptByEvents Balances where
  refl := fun _ hnodup => ⟨hnodup, rfl, List.Perm.refl _⟩
  trans := by
    intro u v x huv hvx hnodup
    have hfirst := huv hnodup
    have hsecond := hvx hfirst.ptrs
    exact ⟨hsecond.ptrs, hsecond.accepted.trans hfirst.accepted, hsecond.fds.trans hfirst.fds⟩
  locked := fun _ hnodup => ⟨hnodup, rfl, List.Perm.refl _⟩
  unlock := fun _ hnodup => ⟨hnodup, rfl, List.Perm.refl _⟩
  script := fun _ _ hnodup => ⟨hnodup, rfl, List.Perm.refl _⟩
  note := by
    intro w c sentBy packet ok
    rw [noteSend_eq]
    refine balances_of_calls rfl rfl ?_ ?_ <;> cases packet <;> rfl
  table := by
    intro w c rc base hc hnodup
    have hset := @balances_setClient w c { c with reqControl := rc } hc rfl rfl hnodup
    exact ⟨hset.ptrs, hset.accepted, hset.fds⟩
  close := by
    intro w status ptr
    cases hclient : w.client ptr with
    | error e =>
        unfold closeClient
        rw [hclient]
        exact not_false
    | ok c =>
        cases hmutex : w.server.clntMutex with
        | true =>
            rw [closeClient_locked hclient hmutex]
            exact not_false
        | false =>
            rw [closeClient_eq hclient hmutex]
            exact balances_closed (client_mem hclient).1 status
  observe := by
    intro w c hc
    refine balances_of_calls rfl rfl ?_ ?_ <;> cases c <;> first | rfl | cases hc
  flags := fun w c flags hc => balances_setClient hc rfl rfl

end Balances

-- ============================================================================
-- Runs
-- ============================================================================

section Runs

variable {w : World} {env : AcceptEnv} {cid : BitVec 16}

/-- A descriptor that is closed as soon as it has been accepted. -/
theorem Accounted.refused (h : Accounted w) (fd : Int) :
    Accounted ((w.note (.accept fd)).note (.closeFd fd)) := by
  have haccepted : acceptedFds ((w.trace ++ [.accept fd]) ++ [.closeFd fd]) =
      acceptedFds w.trace ++ [fd] := by
    rw [acceptedFds_append, acceptedFds_append]
    exact List.append_nil _
  have hclosed : closedFds ((w.trace ++ [.accept fd]) ++ [.closeFd fd]) =
      closedFds w.trace ++ [fd] := by
    rw [closedFds_append, closedFds_append]
    exact congrArg (· ++ [fd]) (List.append_nil _)
  show (acceptedFds ((w.trace ++ [.accept fd]) ++ [.closeFd fd])).Perm
    (openFds w ++ closedFds ((w.trace ++ [.accept fd]) ++ [.closeFd fd]))
  rw [haccepted, hclosed, ← List.append_assoc]
  exact List.Perm.append_right [fd] h

/-- A descriptor that a new record keeps. -/
theorem Accounted.accepted (h : Accounted w) (env : AcceptEnv) (cid : BitVec 16) :
    Accounted (w.accepted env cid) := by
  show (acceptedFds (w.trace ++ [.accept env.clientFd])).Perm
    (env.clientFd :: openFds w ++ closedFds (w.trace ++ [.accept env.clientFd]))
  have hclosed : closedFds (w.trace ++ [.accept env.clientFd]) = closedFds w.trace := by
    rw [closedFds_append]
    exact List.append_nil _
  rw [acceptedFds_append, hclosed]
  exact (List.perm_append_singleton _ _).trans (List.Perm.cons _ h)

/-- The accept callback is told of the client, and its context is stored. -/
theorem greeted_balanced (hi : Idle (w.accepted env cid)) :
    Balanced (w.accepted env cid) (w.greeted env cid) := by
  have hmem : w.newClient env cid ∈ ((w.accepted env cid).note
      (.acceptCallback cid)).server.clients := List.mem_cons_self
  have hnoted : Balances (w.accepted env cid) ((w.accepted env cid).note (.acceptCallback cid)) :=
    balances_of_calls rfl rfl rfl rfl
  have hstored : Balances ((w.accepted env cid).note (.acceptCallback cid)) (w.greeted env cid) :=
    balances_setClient hmem rfl rfl
  exact keptByEvents_balances.trans hnoted hstored hi.ptrs

theorem watchAccepted_accounted (h : Accounted w) (ptr : Nat) :
    Safe anyFault Accounted (watchAccepted ptr w) := by
  unfold watchAccepted
  cases w.client ptr with
  | error e => exact not_false
  | ok c =>
      simp only [bind, Except.bind]
      cases c.recvEvent <;> exact h

theorem onAccept_accounted (hi : Idle w) (h : Accounted w) (env : AcceptEnv) :
    Safe anyFault Accounted (onAccept env w) := by
  have hend := onAccept_accepting hi env
  generalize onAccept env w = out at hend
  cases hend with
  | ignored hbad => exact h
  | refused hbad => exact h.refused env.clientFd
  | searching hcid => exact not_false
  | @dropped cid hbad hcid =>
      have hkept : Accounted { w with
          server := { w.server with lastCid := cid }, base := w.base.alloc.2 } := h
      exact hkept.refused env.clientFd
  | stuck hevent => exact not_false
  | @quiet cid hgood hcid hcb => exact watchAccepted_accounted (h.accepted env cid) _
  | @greeted cid hgood hcid _ _ =>
      obtain ⟨hidle, -⟩ := accepted_spec hi hgood hcid
      obtain ⟨hidle', -⟩ := greeted_spec hi hgood hcid
      have hgreeted := (greeted_balanced hidle).accounted (h.accepted env cid)
      refine (keptByEvents_balances.callback _).bind (fun v hv => ?_)
      exact watchAccepted_accounted ((hv hidle'.ptrs).accounted hgreeted) _

/-- **One event** keeps the books balanced. -/
theorem serverStep_accounted (hi : Idle w) (h : Accounted w) (ev : ServerEvent) :
    Safe anyFault Accounted (serverStep w ev) := by
  have hscripted : ∀ script, Accounted { w with script := script } := fun _ => h
  have hkept : ∀ script v, Balances { w with script := script } v → Accounted v :=
    fun script v hv => (hv (hi.scripted script).ptrs).accounted (hscripted script)
  cases ev with
  | accept env script => exact onAccept_accounted (hi.scripted script) (hscripted script) env
  | recv ptr results script =>
      simp only [serverStep]
      split_ifs
      · exact (keptByEvents_balances.onRecv ptr results _).mono (hkept script)
      · exact h
  | timeout event script =>
      exact (keptByEvents_balances.onTimeout event _).mono (hkept script)
  | call action => exact (keptByEvents_balances.action w action).mono (hkept w.script)

theorem serverRun_accounted (hi : Idle w) (h : Accounted w) (events : List ServerEvent) :
    Safe anyFault Accounted (run serverStep w events) := by
  have hrun : Safe anyFault (fun v => Idle v ∧ Accounted v) (run serverStep w events) := by
    refine Safe.run (fun v ev _ hv => ?_) ⟨hi, h⟩
    have hidle : Safe anyFault (fun v' => Idle v' ∧ Evolves v v' (framesOf v ev) fun _ => False)
        (serverStep v ev) :=
      (serverStep_spec hv.1 ev).weaken fun _ hf => hf.elim
    have hacc := serverStep_accounted hv.1 hv.2 ev
    cases hstep : serverStep v ev with
    | error e => exact not_false
    | ok v' =>
        rw [hstep] at hidle hacc
        exact ⟨hidle.1, hacc⟩
  exact hrun.mono (fun v hv => hv.2)

/-- The kernel returns no descriptor that is open: whatever it has returned before
    has been closed. -/
def KernelFresh : List Call → Prop :=
  Justified (fun past c => ∀ fd, c = .accept fd →
    (acceptedFds past).count fd = (closedFds past).count fd)

/-- No descriptor has been accepted twice without a close in between. -/
theorem KernelFresh.count_le {t : List Call} (h : KernelFresh t) (fd : Int) :
    (acceptedFds t).count fd ≤ (closedFds t).count fd + 1 := by
  refine Justified.induction (motive := fun t =>
    (acceptedFds t).count fd ≤ (closedFds t).count fd + 1) (Nat.zero_le _) ?_ h
  intro past c _ hc ih
  rw [acceptedFds_append, closedFds_append, List.count_append, List.count_append]
  by_cases haccept : c = .accept fd
  · have hclosed := hc fd haccept
    have hone : (acceptedFds [c]).count fd = 1 := by
      rw [haccept]
      exact List.count_singleton_self
    omega
  · have hnone : (acceptedFds [c]).count fd = 0 := by
      rw [List.count_eq_zero]
      cases c with
      | accept fd' =>
          intro hmem
          exact haccept (congrArg Call.accept (List.mem_singleton.mp hmem).symm)
      | _ => exact List.not_mem_nil
    omega

/-- **No descriptor is lost, and none is closed twice.**  In every run from a
    successful open without a fault, that is, as long as nothing touches a client
    after its release, and whatever else the callbacks do: what `accept` has returned
    so far is what the connected clients have for a descriptor, and what has been
    closed, with each descriptor as often here as there.  If the kernel returns no
    descriptor that is open, no two connected clients have the same. -/
theorem descriptors_of_run {openEnv : OpenEnv} {base : EventBase}
    {acceptCallback : Option Callback} {acceptContext : Context}
    {receiveCallback closeCallback : Option Callback} {w₀ : World} (hbase : BareBase base)
    (hopen : afIpcsOpen openEnv base acceptCallback acceptContext receiveCallback closeCallback =
      some w₀) (events : List ServerEvent) (hrun : run serverStep w₀ events = .ok w) :
    (acceptedFds w.trace).Perm (openFds w ++ closedFds w.trace) ∧
      (KernelFresh w.trace → (openFds w).Nodup) := by
  have hidle := idle_of_open hbase hopen
  have hnone : Accounted w₀ := by
    obtain rfl := opened_eq hopen
    exact List.Perm.nil
  have hacc : Accounted w := (serverRun_accounted hidle hnone events).of_ok hrun
  refine ⟨hacc, fun hfresh => ?_⟩
  rw [List.nodup_iff_count_le_one]
  intro fd
  have hcount := List.Perm.count_eq hacc fd
  have hle := hfresh.count_le fd
  rw [List.count_append] at hcount
  omega

/-- A client that comes, is sent a message that fails, and is closed for it. -/
theorem descriptors_of_run_closed :
    ∃ w₀, afIpcsOpen .good ⟨[], 0⟩ (some 1) 0 (some 2) (some 3) = some w₀ ∧
      ∃ w, run serverStep w₀ [.accept (.good 4) [], .accept (.good 5) [],
        .call (.sendUnsolicited 1 [9] 1 (fun _ => ⟨true, true, 0, false, 32⟩))] = .ok w ∧
        (acceptedFds w.trace).Perm (openFds w ++ closedFds w.trace) ∧
        (KernelFresh w.trace → (openFds w).Nodup) := by
  have hbase : BareBase ⟨[], 0⟩ := fun e he => absurd he List.not_mem_nil
  have hopen : afIpcsOpen .good ⟨[], 0⟩ (some 1) 0 (some 2) (some 3) = some _ := rfl
  refine ⟨_, hopen, _, rfl, ?_⟩
  exact descriptors_of_run hbase hopen [.accept (.good 4) [], .accept (.good 5) [],
    .call (.sendUnsolicited 1 [9] 1 (fun _ => ⟨true, true, 0, false, 32⟩))] rfl

end Runs

end AfIpc.Ipcs
