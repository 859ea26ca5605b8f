/-
  AfIpc.Ipcs.Clients

  Who is in the client list.  An event takes in at most the client it accepts
  (`serverStep_sub`), and loses no client whose record it does not give back
  (`Endpoint.Steps.kept`); so after a run the list holds the clients that the run
  accepted, less those that it closed.  The ids come with them.
-/

import AfIpc.Ipcs.Runs

namespace AfIpc.Ipcs

open AfIpc.Lib AfIpc.Ipc

-- ============================================================================
-- Events take in no client but the one they accept
-- ============================================================================

/-- The client that an event links into the list. -/
def acceptedBy (w : World) : ServerEvent → Option (Nat × BitVec 16 × Int)
  | .accept env _ =>
    if 0 ≤ env.clientFd ∧ env.clientFd ≤ fdSetsize ∧ env.alloc = true ∧
        ¬ (afIpcUtilInitRequests env.reqPool env.reqMutex).1 < 0 then
      match getNextCid w.server.clients 65536 w.server.lastCid with
      | .ok cid => some (w.newClient env cid).ident
      | .error _ => none
    else none
  | _ => none

/-- The clients that a run accepts, in order. -/
def acceptedIn : World → List ServerEvent → List (Nat × BitVec 16 × Int)
  | _, [] => []
  | w, ev :: events =>
    (acceptedBy w ev).toList ++
      match serverStep w ev with
      | .ok w' => acceptedIn w' events
      | .error _ => []

section Shrinks

variable {w : World}

theorem Shrinks.refl (w : World) : Shrinks w w := fun _ hid => hid

/-- Writing back a record that was read through the same pointer. -/
theorem setClient_read_shrinks {ptr : Nat} {c c' : Client} (hc : w.client ptr = .ok c)
    (hid : c'.ident = c.ident) : Shrinks w (w.setClient c') :=
  setClient_shrinks (client_mem hc).1 hid

theorem handleFrame_shrinks (ptr : Nat) (cid : BitVec 16) (callback : Option Callback)
    (context : Context) (f : Frame) (w : World) :
    Safe anyFault (Shrinks w) (handleFrame (serverReceiver ptr cid callback context) f w) := by
  have hnoted : Shrinks w (w.note (.frame ptr f)) := .of_server rfl
  simp only [handleFrame, serverReceiver]
  split_ifs
  · cases callback with
    | none => exact hnoted
    | some cb =>
        refine (runCallback_shrinks _).mono ?_
        intro w' hw'
        exact hnoted.trans (Shrinks.trans (.of_server rfl) hw')
  · cases hclient : (w.note (.frame ptr f)).client ptr with
    | error e => exact not_false
    | ok c =>
        simp only [bind, Except.bind, pure, Except.pure]
        generalize takeResponse (getSeqId f.seqNum) c.reqControl (w.note (.frame ptr f)).base = out
        obtain ⟨found, rc, base⟩ := out
        cases found with
        | none => exact hnoted
        | some req =>
            have hset := setTable_shrinks (client_mem hclient).1 rc base
            dsimp only
            cases req.responseCallback with
            | none => exact hnoted.trans hset
            | some cb =>
                refine (runCallback_shrinks _).mono ?_
                intro w' hw'
                exact (hnoted.trans hset).trans (Shrinks.trans (.of_server rfl) hw')

theorem handleMessage_shrinks (ptr : Nat) (cid : BitVec 16) (callback : Option Callback)
    (context : Context) (bytes : List Byte) (w : World) :
    Safe anyFault (Shrinks w)
      (afIpcHandleReceiveMessage (serverReceiver ptr cid callback context) bytes w) := by
  rw [afIpcHandleReceiveMessage_eq]
  refine Safe.run (fun v f _ hv => ?_) (Shrinks.refl w)
  exact (handleFrame_shrinks ptr cid callback context f v).mono fun _ hw' => hv.trans hw'

theorem onRecv_shrinks (ptr : Nat) (results : List RecvResult) (w : World) :
    Safe anyFault (Shrinks w) (onRecv ptr results w) := by
  induction results generalizing w with
  | nil => exact Shrinks.refl w
  | cons r rs ih =>
      cases r with
      | eof => exact closeClient_shrinks statusError ptr
      | error e =>
          simp only [onRecv, recvLoop]
          split_ifs
          · exact Shrinks.refl w
          · exact closeClient_shrinks statusError ptr
      | data bytes =>
          simp only [onRecv, recvLoop, serverHooks, bind, Except.bind, pure, Except.pure]
          cases hclient : w.client ptr with
          | error e => exact not_false
          | ok c =>
              have henter : Shrinks w
                  (w.setClient { c with flags := c.flags ||| clientFlagsInReceive }) :=
                setClient_read_shrinks hclient rfl
              dsimp only
              refine Safe.bind (handleMessage_shrinks ptr c.cid _ _ bytes _) ?_
              intro v hv
              cases hleave : v.client ptr with
              | error e => exact not_false
              | ok d =>
                  have hset : Shrinks v
                      (v.setClient { d with flags := d.flags &&& ~~~clientFlagsInReceive }) :=
                    setClient_read_shrinks hleave rfl
                  have hall := henter.trans (hv.trans hset)
                  dsimp only
                  split_ifs
                  · exact (closeClient_shrinks statusOk ptr).mono fun _ hw' => hall.trans hw'
                  · exact (ih _).mono fun _ hw' => hall.trans hw'

theorem onTimeout_shrinks (event : Nat) (w : World) :
    Safe anyFault (Shrinks w) (onTimeout event w) := by
  unfold onTimeout
  cases w.base.timerOf event with
  | none => exact Shrinks.refl w
  | some ptr =>
      dsimp only
      cases howner : w.ownerOf ptr with
      | none => exact not_false
      | some c =>
          dsimp only
          cases afIpcOnTimeout ptr c.reqControl (timerFired event w.base) with
          | error e => exact not_false
          | ok out =>
              obtain ⟨req, rc, base⟩ := out
              have hset := setTable_shrinks (ownerOf_mem howner).1 rc base
              simp only [bind, Except.bind]
              cases req.responseCallback with
              | none => exact hset
              | some cb =>
                  refine (runCallback_shrinks _).mono ?_
                  intro w' hw'
                  exact hset.trans (Shrinks.trans (.of_server rfl) hw')

theorem watchAccepted_shrinks (ptr : Nat) (w : World) :
    Safe anyFault (Shrinks w) (watchAccepted ptr w) := by
  unfold watchAccepted
  cases w.client ptr with
  | error e => exact not_false
  | ok c =>
      simp only [bind, Except.bind, pure, Except.pure]
      cases c.recvEvent with
      | none => exact Shrinks.refl w
      | some e => exact Shrinks.of_server rfl

end Shrinks

section Events

variable {w : World}

theorem AcceptEnv.Good.acceptedBy {env : AcceptEnv} (hgood : env.Good) {cid : BitVec 16}
    (hcid : getNextCid w.server.clients 65536 w.server.lastCid = .ok cid)
    (script : List (List Action)) :
    acceptedBy w (.accept env script) = some (w.newClient env cid).ident := by
  simp only [Ipcs.acceptedBy]
  rw [if_pos ⟨hgood.fd, hgood.small, hgood.alloc, hgood.init⟩, hcid]

/-- **An event** takes in no client but the one it accepts. -/
theorem serverStep_sub (hi : Idle w) (ev : ServerEvent) :
    Safe anyFault (fun w' => ∀ id ∈ w'.idents, id ∈ w.idents ∨ acceptedBy w ev = some id)
      (serverStep w ev) := by
  have hold : ∀ v, Shrinks w v → ∀ id ∈ v.idents, id ∈ w.idents ∨ acceptedBy w ev = some id :=
    fun v hv id hid => Or.inl (hv id hid)
  cases ev with
  | accept env script =>
      have hend := onAccept_accepting (hi.scripted script) env
      show Safe _ _ (onAccept env { w with script := script })
      generalize onAccept env { w with script := script } = out at hend
      have hsame : ∀ v : World, v.server.clients = w.server.clients →
          ∀ id ∈ v.idents, id ∈ w.idents ∨ acceptedBy w (.accept env script) = some id :=
        fun v hv => hold v (.of_server hv)
      cases hend with
      | ignored hbad => exact hsame _ rfl
      | refused hbad => exact hsame _ rfl
      | searching hcid => exact not_false
      | dropped hbad hcid => exact hsame _ rfl
      | stuck hevent => exact not_false
      | @quiet cid hgood hcid hcb =>
          refine (watchAccepted_shrinks _ _).mono ?_
          intro w' hw' id hid
          rcases List.mem_cons.mp (hw' id hid) with rfl | hold
          · exact Or.inr (hgood.acceptedBy hcid script)
          · exact Or.inl hold
      | @greeted cid hgood hcid _ _ =>
          have hset := @setClient_shrinks ((World.accepted { w with script := script } env
            cid).note (.acceptCallback cid)) _ { World.newClient { w with script := script } env
            cid with clientContext := env.context } List.mem_cons_self rfl
          refine Safe.bind (runCallback_shrinks _) (fun v hv => ?_)
          refine (watchAccepted_shrinks _ _).mono ?_
          intro w' hw' id hid
          rcases List.mem_cons.mp (hset id (hv id (hw' id hid))) with rfl | hold
          · exact Or.inr (hgood.acceptedBy hcid script)
          · exact Or.inl hold
  | recv ptr results script =>
      simp only [serverStep]
      by_cases hwatch : watches w.base ptr = true
      · rw [if_pos hwatch]
        refine (onRecv_shrinks ptr results _).mono ?_
        exact hold
      · rw [if_neg hwatch]
        exact hold w (.refl w)
  | timeout event script =>
      refine (onTimeout_shrinks event _).mono ?_
      exact hold
  | call action =>
      refine (runAction_shrinks w action).mono ?_
      exact hold

/-- The client that an event accepts is linked on the way. -/
theorem acceptedBy_linked (hi : Idle w) {ev : ServerEvent} {id : Nat × BitVec 16 × Int}
    (hid : acceptedBy w ev = some id) {w' : World} (hstep : serverStep w ev = .ok w') :
    ∃ v, Idle v ∧ id ∈ v.idents ∧ v.endpoint.Steps w'.endpoint := by
  cases ev with
  | recv => cases hid
  | timeout => cases hid
  | call => cases hid
  | accept env script =>
      simp only [acceptedBy] at hid
      split_ifs at hid with hcond
      obtain ⟨hfd, hsmall, halloc, hinit⟩ := hcond
      have hgood : env.Good := ⟨hfd, hsmall, halloc, hinit⟩
      have hi' := hi.scripted script
      have hend := onAccept_accepting hi' env
      have hout : onAccept env { w with script := script } = .ok w' := hstep
      rw [hout] at hend
      generalize hresult : Except.ok w' = out at hend
      cases hend with
      | ignored hbad => exact absurd hgood hbad
      | refused hbad => exact absurd hgood hbad
      | searching hcid => cases hresult
      | dropped hbad hcid => exact absurd hgood hbad
      | stuck hevent => cases hresult
      | @quiet cid _ hcid hcb =>
          have hcid' : getNextCid w.server.clients 65536 w.server.lastCid = .ok cid := hcid
          rw [hcid'] at hid
          obtain rfl := Option.some.inj hid
          obtain ⟨hidle, -⟩ := accepted_spec hi' hgood hcid
          have hmem : (World.newClient { w with script := script } env cid).ident ∈
              (World.accepted { w with script := script } env cid).idents := List.mem_cons_self
          obtain ⟨w'', hw'', -, hwatch⟩ := watchAccepted_spec hidle hmem
          have hsame : w' = w'' := Except.ok.inj (hresult.trans hw'')
          subst hsame
          exact ⟨_, hidle, hmem, hwatch.steps⟩
      | @greeted cid _ hcid _ _ =>
          have hcid' : getNextCid w.server.clients 65536 w.server.lastCid = .ok cid := hcid
          rw [hcid'] at hid
          obtain rfl := Option.some.inj hid
          obtain ⟨hidle, -, hmem⟩ := greeted_spec hi' hgood hcid
          obtain ⟨v, hv, hcalled, hcalls, -⟩ := runCallback_spec hidle
          rw [hv] at hresult
          have hwatched : watchAccepted w.base.next v = .ok w' := hresult.symm
          -- the pointer is followed once more, so the client is still there
          have hlive : (World.newClient { w with script := script } env cid).ident ∈ v.idents := by
            by_contra hnot
            have hgone := gone_of_not_mem hidle hmem ((runCallback_shrinks _).of_ok hv) hnot
            have hclient : v.client w.base.next = .error .useAfterRelease := hgone.client
            simp only [watchAccepted, hclient, bind, Except.bind] at hwatched
            cases hwatched
          obtain ⟨w'', hw'', -, hwatch⟩ := watchAccepted_spec hcalled hlive
          have hsame : w' = w'' := Except.ok.inj (hwatched.symm.trans hw'')
          subst hsame
          exact ⟨_, hidle, hmem, hcalls.steps.trans hwatch.steps⟩

end Events

-- ============================================================================
-- The list behind a run
-- ============================================================================

section Runs

variable {w w' : World} {id : Nat × BitVec 16 × Int}

/-- What `acceptedBy` says about the new client. -/
theorem acceptedBy_fresh {ev : ServerEvent} (h : acceptedBy w ev = some id) :
    id.1 = w.base.next ∧ id.2.1 ≠ 0 := by
  cases ev with
  | recv => cases h
  | timeout => cases h
  | call => cases h
  | accept env script =>
      simp only [acceptedBy] at h
      split_ifs at h
      cases hcid : getNextCid w.server.clients 65536 w.server.lastCid with
      | error e =>
          rw [hcid] at h
          cases h
      | ok cid =>
          rw [hcid] at h
          obtain rfl := Option.some.inj h
          exact ⟨rfl, (getNextCid_ok hcid).1⟩

theorem Idle.ident_below (hi : Idle w) (hid : id ∈ w.idents) : id.1 < w.base.next := by
  obtain ⟨c, hc, rfl⟩ := List.mem_map.mp hid
  exact hi.sound.lives.below c.conn (conn_mem hc)

theorem Idle.ident_inj (hi : Idle w) {id' : Nat × BitVec 16 × Int} (hid : id ∈ w.idents)
    (hid' : id' ∈ w.idents) (hptr : id'.1 = id.1) : id' = id := by
  obtain ⟨c, hc, rfl⟩ := List.mem_map.mp hid
  obtain ⟨d, hd, rfl⟩ := List.mem_map.mp hid'
  rw [hi.eq_of_ptr hc hd hptr]

theorem Idle.not_released (hi : Idle w) (hid : id ∈ w.idents) : releasesOf id.1 w.trace = 0 := by
  obtain ⟨c, hc, rfl⟩ := List.mem_map.mp hid
  exact (hi.sound.lives.still c.ptr (.inl ⟨c.conn, conn_mem hc, rfl⟩)).2

/-- **One event.**  Behind it the list holds the clients from before and the one it
    accepted, less those whose records have been given back. -/
theorem serverStep_idents (hi : Idle w) {ev : ServerEvent} (hstep : serverStep w ev = .ok w') :
    id ∈ w'.idents ↔
      (id ∈ w.idents ∨ acceptedBy w ev = some id) ∧ releasesOf id.1 w'.trace = 0 := by
  have hspec := (serverStep_spec hi ev).of_ok hstep
  have hsub := (serverStep_sub hi ev).of_ok hstep
  refine ⟨?_, ?_⟩
  · intro hid
    exact ⟨hsub id hid, hspec.1.not_released hid⟩
  · rintro ⟨hknown, hrel⟩
    -- an address is that of one client only
    have hsame : ∀ i ∈ w'.idents, i.1 = id.1 → i = id := by
      intro i hmem hptr
      rcases hsub i hmem with hold | hnew
      · rcases hknown with hold' | hnew'
        · exact hi.ident_inj hold' hold hptr
        · have hlt := hi.ident_below hold
          have hnext := (acceptedBy_fresh hnew').1
          omega
      · rcases hknown with hold' | hnew'
        · have hlt := hi.ident_below hold'
          have hnext := (acceptedBy_fresh hnew).1
          omega
        · rw [hnew, Option.some.injEq] at hnew'
          exact hnew'
    have hlinked : ∃ v : World, id ∈ v.idents ∧ v.endpoint.Steps w'.endpoint := by
      rcases hknown with hold | hnew
      · exact ⟨w, hold, hspec.2.steps⟩
      · obtain ⟨v, -, hmem, hsteps⟩ := acceptedBy_linked hi hnew hstep
        exact ⟨v, hmem, hsteps⟩
    obtain ⟨v, hmem, hsteps⟩ := hlinked
    obtain ⟨c, hc, rfl⟩ := List.mem_map.mp hmem
    have hkept := hsteps.kept (List.mem_map_of_mem (f := Conn.ptr) (conn_mem hc)) hrel
    obtain ⟨d, hd, hptr⟩ := List.mem_map.mp hkept
    obtain ⟨e, he, rfl⟩ := List.mem_map.mp hd
    have hident : e.ident ∈ w'.idents := List.mem_map_of_mem he
    rw [hsame e.ident hident hptr] at hident
    exact hident

/-- **A run.** -/
theorem serverRun_idents (hi : Idle w) {events : List ServerEvent}
    (hrun : run serverStep w events = .ok w') :
    id ∈ w'.idents ↔
      (id ∈ w.idents ∨ id ∈ acceptedIn w events) ∧ releasesOf id.1 w'.trace = 0 := by
  induction events generalizing w with
  | nil =>
      have hsame : w = w' := Except.ok.inj hrun
      subst hsame
      refine ⟨?_, ?_⟩
      · intro hid
        exact ⟨Or.inl hid, hi.not_released hid⟩
      · rintro ⟨hold | hnone, -⟩
        · exact hold
        · exact absurd hnone List.not_mem_nil
  | cons ev events ih =>
      rw [run_cons, bind_eq_ok] at hrun
      obtain ⟨v, hstep, hrest⟩ := hrun
      have hidle := ((serverStep_spec hi ev).of_ok hstep).1
      have hsteps := ((serverRun_spec hidle events).of_ok hrest).2.1
      have haccepted : acceptedIn w (ev :: events) =
          (acceptedBy w ev).toList ++ acceptedIn v events := by
        rw [acceptedIn, hstep]
      rw [ih hidle hrest, serverStep_idents hi hstep, haccepted, List.mem_append,
        Option.mem_toList]
      refine ⟨?_, ?_⟩
      · rintro ⟨⟨hold | hnew, -⟩ | hlater, hrel⟩
        · exact ⟨Or.inl hold, hrel⟩
        · exact ⟨Or.inr (Or.inl hnew), hrel⟩
        · exact ⟨Or.inr (Or.inr hlater), hrel⟩
      · rintro ⟨hknown, hrel⟩
        have hle : releasesOf id.1 v.trace ≤ releasesOf id.1 w'.trace := hsteps.releases_le id.1
        have hstill : releasesOf id.1 v.trace = 0 := by omega
        rcases hknown with hold | hnew | hlater
        · exact ⟨Or.inl ⟨Or.inl hold, hstill⟩, hrel⟩
        · exact ⟨Or.inl ⟨Or.inr hnew, hstill⟩, hrel⟩
        · exact ⟨Or.inr hlater, hrel⟩

theorem acceptedIn_cid {events : List ServerEvent} (h : id ∈ acceptedIn w events) :
    id.2.1 ≠ 0 := by
  induction events generalizing w with
  | nil => exact absurd h List.not_mem_nil
  | cons ev events ih =>
      rw [acceptedIn, List.mem_append, Option.mem_toList] at h
      rcases h with hnew | hlater
      · exact (acceptedBy_fresh hnew).2
      · cases hstep : serverStep w ev with
        | error e =>
            rw [hstep] at hlater
            exact absurd hlater List.not_mem_nil
        | ok v =>
            rw [hstep] at hlater
            exact ih hlater

/-- **The client list.**  In every state that a run from a successful open reaches
    without a fault (behind one, such as a write to a client that its own callback
    has released, no state is defined): the list holds exactly the clients the run has
    accepted and not yet closed, once each; their ids are not 0 and all different; with
    at most 65534 clients `get_next_cid` ends, whatever the last id was, with an id
    that is not 0 and no client's; and `find_client_by_cid` finds exactly the client
    with the id. -/
theorem serverRun_clients {env : OpenEnv} {base : EventBase} {acceptCallback : Option Callback}
    {acceptContext : Context} {receiveCallback closeCallback : Option Callback} {w₀ : World}
    (hbase : BareBase base) (hopen : afIpcsOpen env base acceptCallback acceptContext
      receiveCallback closeCallback = some w₀) (events : List ServerEvent) {w : World}
    (hrun : run serverStep w₀ events = .ok w) :
    (∀ id, id ∈ w.idents ↔ id ∈ acceptedIn w₀ events ∧ releasesOf id.1 w.trace = 0) ∧
      w.idents.Nodup ∧ (∀ c ∈ w.server.clients, c.cid ≠ 0) ∧
      (w.server.clients.map Client.cid).Nodup ∧
      (w.server.clients.length ≤ 65534 → ∀ lastCid, ∃ cid,
        getNextCid w.server.clients 65536 lastCid = .ok cid ∧ cid ≠ 0 ∧
          ∀ c ∈ w.server.clients, c.cid ≠ cid) ∧
      ∀ cid c, findClientByCid w cid = some c ↔ c ∈ w.server.clients ∧ c.cid = cid := by
  have hi₀ := idle_of_open hbase hopen
  have hi := ((serverRun_spec hi₀ events).of_ok hrun).1
  have hnone : w₀.idents = [] := by
    rw [opened_eq hopen]
    rfl
  have hlist : ∀ id, id ∈ w.idents ↔ id ∈ acceptedIn w₀ events ∧ releasesOf id.1 w.trace = 0 := by
    intro id
    rw [serverRun_idents hi₀ hrun, hnone]
    simp
  have hcids : (w.server.clients.map Client.cid).Nodup := by
    have h := hi.sound.lives.cids
    rw [World.endpoint, List.map_map] at h
    exact h
  refine ⟨hlist, ?_, ?_, hcids, ?_, ?_⟩
  · have hptrs := hi.ptrs
    have hmap : w.server.clients.map Client.ptr = w.idents.map Prod.fst := by
      rw [World.idents, List.map_map]
      rfl
    rw [hmap] at hptrs
    exact hptrs.of_map
  · intro c hc
    exact acceptedIn_cid ((hlist c.ident).mp (List.mem_map_of_mem hc)).1
  · intro hlen lastCid
    obtain ⟨cid, hcid⟩ := getNextCid_total hlen lastCid
    exact ⟨cid, hcid, getNextCid_ok hcid⟩
  · intro cid c
    refine ⟨?_, ?_⟩
    · exact findClientByCid_mem
    · rintro ⟨hc, rfl⟩
      exact find?_key hcids hc

end Runs

/-- Two clients are accepted, and the first is closed. -/
theorem serverRun_clients_two :
    ∃ w₀, afIpcsOpen .good ⟨[], 0⟩ (some 1) 0 (some 2) (some 3) = some w₀ ∧
      ∃ w, run serverStep w₀ [.accept (.good 4) [], .accept (.good 5) [],
          .call (.closeClient 1)] = .ok w ∧ w.idents = [(3, 2, 5)] ∧
        ∀ cid c, findClientByCid w cid = some c ↔ c ∈ w.server.clients ∧ c.cid = cid := by
  have hbase : BareBase ⟨[], 0⟩ := fun e he => absurd he List.not_mem_nil
  have hopen : afIpcsOpen .good ⟨[], 0⟩ (some 1) 0 (some 2) (some 3) = some _ := rfl
  refine ⟨_, hopen, _, rfl, rfl, ?_⟩
  exact (serverRun_clients hbase hopen [.accept (.good 4) [], .accept (.good 5) [],
    .call (.closeClient 1)] rfl).2.2.2.2.2

end AfIpc.Ipcs
