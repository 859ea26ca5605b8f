/-
  AfIpc.System.RemoteCalls

  The RPC layer on top of the IPC layer.  An application builds its messages with
  `af_rpc_create_buffer_with_params` and hands them to one of the send functions;
  the other end is handed bytes by a callback and takes them apart with
  `af_rpc_get_params_from_buffer`.  Nothing in between looks into the bytes, so that
  what is called for is that they are the same: a call reaches the other end with the
  arguments it was made with, and returns what was answered to these.
-/

import AfIpc.Rpc.PrefixWidth
import AfIpc.Rpc.RoundTrip
import AfIpc.System.Exchange

namespace AfIpc.System

open AfIpc.Lib AfIpc.Ipc AfIpc.Rpc

-- ============================================================================
-- Messages
-- ============================================================================

/-- The bytes that `af_rpc_create_buffer_with_params` returns the number of, in a
    buffer that the length prefix can describe. -/
def MadeOf (mem : Mem) (params : List AfRpcParam) (bytes : List Byte) : Prop :=
  ∃ (buf : List Byte) (n : Int) (out : List Byte), buf.length ≤ 65535 ∧
    afRpcCreateBufferWithParams mem buf buf.length params = .ok (n, out) ∧ 0 < n ∧
    bytes = out.take n.toNat

/-- The decoded parameter is the one that was encoded. -/
def SameValue (mem mem' : Mem) (p d : AfRpcParam) : Prop :=
  ∃ q : ValidParam, q.param = p ∧ SameParam mem mem' q d

/-- The bytes, wherever they are held, decode to the parameters: permissively, or
    against a template of matching kinds. -/
def ReadsAs (mem : Mem) (params : List AfRpcParam) (bytes : List Byte) : Prop :=
  ∀ (addr : Word) (mem' : Mem) (template : List AfRpcParam) (permissive : Bool),
    readMem mem' addr bytes.length = bytes →
    List.Forall₂ (fun entry p : AfRpcParam =>
      permissive = true ∨ TypeMatches entry.type (p.type.setWidth 16)) template params →
    ∃ decoded, afRpcGetParamsFromBuffer template params.length addr bytes bytes.length
        permissive = .ok ((params.length : Int), decoded) ∧
      List.Forall₂ (SameValue mem mem') params decoded

section Messages

variable {mem : Mem} {params : List AfRpcParam} {bytes : List Byte}

/-- A buffer that holds a length starts with two bytes. -/
theorem two_le_of_created {buf out : List Byte} {n : Int}
    (h : afRpcCreateBufferWithParams mem buf buf.length params = .ok (n, out)) (hn : 0 < n) :
    2 ≤ buf.length := by
  by_contra hshort
  simp only [afRpcCreateBufferWithParams] at h
  split_ifs at h with hzero hone
  · have hret : errBadParam = n := congrArg Prod.fst (Except.ok.inj h)
    rw [← hret] at hn
    exact absurd hn (by decide)
  · have hret : errBufferOverflow = n := congrArg Prod.fst (Except.ok.inj h)
    rw [← hret] at hn
    exact absurd hn (by decide)
  · rw [lengthSize] at hone
    omega

/-- **What the builder returns** is the message of its parameters, all of which are
    of valid types. -/
theorem MadeOf.message (h : MadeOf mem params bytes) :
    ∃ ps : List ValidParam, ps.map ValidParam.param = params ∧
      bytes = encodeMessage (ps.map (ValidParam.tlv mem)) ∧
      messageSize (ps.map (ValidParam.tlv mem)) < 2 ^ 16 := by
  obtain ⟨buf, n, out, hbuf, hcreate, hn, rfl⟩ := h
  have htwo := two_le_of_created hcreate hn
  -- every parameter is valid, or the loop has returned an error
  have hvalid : ∀ p ∈ params, IsValid p := by
    have htake : (buf.take 2).length = 2 := by rw [List.length_take]; omega
    have hdrop : (buf.drop 2).length = buf.length - 2 := List.length_drop
    obtain ⟨ret, out', hloop, hres⟩ := createBufferLoop_total mem params (buf.take 2) (buf.drop 2)
      (by omega)
    have hsize : (buf.take 2).length + (buf.drop 2).length = buf.length := by omega
    rw [hsize, List.take_append_drop, htake] at hloop
    have hrun : afRpcCreateBufferWithParams mem buf buf.length params = .ok (ret, out') := by
      simp only [afRpcCreateBufferWithParams]
      rw [if_neg (by omega), if_neg (by rw [lengthSize]; omega)]
      exact hloop
    have hret : n = ret := congrArg Prod.fst (Except.ok.inj (hcreate.symm.trans hrun))
    rcases hres with ⟨hall, -⟩ | ⟨hneg, -⟩
    · exact hall
    · omega
  obtain ⟨ps, rfl⟩ : ∃ ps : List ValidParam, ps.map ValidParam.param = params := by
    clear hcreate hbuf
    induction params with
    | nil => exact ⟨[], rfl⟩
    | cons p params ih =>
        obtain ⟨q, rfl⟩ := hvalid p List.mem_cons_self
        obtain ⟨ps, rfl⟩ := ih (fun p' hp' => hvalid p' (List.mem_cons_of_mem _ hp'))
        exact ⟨q :: ps, rfl⟩
  by_cases hfit : messageSize (ps.map (ValidParam.tlv mem)) ≤ buf.length
  · have hpfx : messageSize (ps.map (ValidParam.tlv mem)) < 2 ^ 16 := by omega
    have hmade := hcreate.symm.trans (create_eq_encodeMessage mem ps buf hfit hpfx)
    obtain ⟨rfl, rfl⟩ := Prod.mk.inj (Except.ok.inj hmade)
    refine ⟨ps, rfl, ?_, hpfx⟩
    rw [Int.toNat_natCast, ← encodeMessage_length, List.take_left]
  · obtain ⟨buf', hover⟩ := create_too_large mem ps buf htwo (by omega)
    have hret : n = errBufferOverflow :=
      congrArg Prod.fst (Except.ok.inj (hcreate.symm.trans hover))
    rw [hret] at hn
    exact absurd hn (by decide)

/-- **The message of the parameters reads as the parameters.** -/
theorem MadeOf.readsAs (h : MadeOf mem params bytes) : ReadsAs mem params bytes := by
  obtain ⟨ps, rfl, rfl, hpfx⟩ := h.message
  intro addr mem' template permissive hmem htemplate
  have htemplate' : Template permissive template ps := List.forall₂_map_right_iff.mp htemplate
  have hget := getParams_encodeMessage mem ps addr template permissive htemplate' hpfx
  rw [← encodeMessage_length] at hget
  rw [List.length_map]
  refine ⟨_, hget, ?_⟩
  have hsplit : encodeMessage (ps.map (ValidParam.tlv mem)) =
      toBe 2 (messageSize (ps.map (ValidParam.tlv mem))) ++ (tlvsBytes mem ps ++ []) := by
    rw [List.append_nil]
    rfl
  rw [hsplit] at hmem
  have hsame := sameParam_decodedParams ps _ [] hmem
  rw [toBe_length] at hsame
  rw [List.forall₂_map_left_iff]
  exact hsame.imp (fun q d hq => ⟨q, rfl, hq⟩)

end Messages

-- ============================================================================
-- Calls
-- ============================================================================

/-- The rule for an application: all that it sends are messages of the builder. -/
def SpeaksRpc (trace : List Call) : Prop :=
  ∀ conn fd sentBy packet, .sendmsg conn fd sentBy packet true ∈ trace →
    ∃ mem params, MadeOf mem params packet.frame.payload

/-- The payload that a receive callback is handed: the peer has sent it on the same
    connection, and it reads as the parameters that the peer built it from. -/
def Delivered (peer : Nat) (other : List Call) (payload : List Byte) : Prop :=
  ∃ fd sentBy packet mem params, .sendmsg peer fd sentBy packet true ∈ other ∧
    packet.frame.payload = payload ∧ MadeOf mem params payload ∧ ReadsAs mem params payload

/-- A remote call that returns to the callback of `req`: it was made on `conn` with
    arguments that the receive callback of the peer could read, and the payload reads
    as the results that the peer then sent as its response to this call. -/
structure Returned (conn peer : Nat) (own other : List Call) (req : Request)
    (payload : List Byte) : Prop where
  returns : ∃ fd packet fd' packet' context before after mem args mem' results,
    -- the call
    .sendmsg conn fd (.request req.responseCallback req.responseContext) packet true ∈ own ∧
    packet.hdr.seqNum = req.seqNum ||| newRequestMask ∧
    MadeOf mem args packet.frame.payload ∧
    -- what the peer made of it
    .receiveCallback peer packet'.hdr.seqNum packet.frame.payload context ∈ before ∧
    ReadsAs mem args packet.frame.payload ∧
    other = before ++ .sendmsg peer fd' .response packet' true :: after ∧
    -- what it returns
    MadeOf mem' results payload ∧ packet'.frame.payload = payload ∧ ReadsAs mem' results payload

/-- What an application at the end `conn` of a connection hears from the other. -/
structure RemoteCalls (conn peer : Nat) (own other : List Call) : Prop where
  delivered : ∀ seqNum payload context, .receiveCallback conn seqNum payload context ∈ own →
    Delivered peer other payload
  returned : ∀ t₁ t₂ req seqNum payload,
    own = t₁ ++ .responseCallback conn req statusOk seqNum payload :: t₂ →
      Returned conn peer t₁ other req payload

section Calls

variable {conn peer : Nat} {own other : List Call}

/-- A payload goes back to a message of the peer. -/
theorem sent_of_received (hown : Justified Rule own) (htaken : takenOn conn own <+: sentOn peer other)
    {seqNum : BitVec 32} {payload : List Byte} {context : Context}
    (h : .receiveCallback conn seqNum payload context ∈ own) :
    ∃ fd sentBy packet, .sendmsg peer fd sentBy packet true ∈ other ∧
      packet.frame.payload = payload := by
  obtain ⟨t₁, t₂, ht⟩ := List.append_of_mem h
  have hreceived : Received t₁ conn seqNum payload := hown _ _ _ ht
  obtain ⟨past, f, cid, hlast, -, -, rfl⟩ := hreceived
  have hf : f ∈ takenOn conn own := by
    apply mem_takenOn
    rw [ht, hlast]
    simp
  obtain ⟨fd, sentBy, packet, hsend, hframe⟩ := of_mem_sentOn (htaken.subset hf)
  exact ⟨fd, sentBy, packet, hsend, by rw [hframe]⟩

theorem remoteCalls_of_rules (hown : Justified Rule own) (hother : Justified Rule other)
    (happ : RespondsToRequests own) (happ' : RespondsToRequests other)
    (htaken : takenOn conn own <+: sentOn peer other)
    (htaken' : takenOn peer other <+: sentOn conn own) (hrpc : SpeaksRpc own)
    (hrpc' : SpeaksRpc other) : RemoteCalls conn peer own other where
  delivered := by
    intro seqNum payload context h
    obtain ⟨fd, sentBy, packet, hsend, rfl⟩ := sent_of_received hown htaken h
    obtain ⟨mem, params, hmade⟩ := hrpc' _ _ _ _ hsend
    exact ⟨fd, sentBy, packet, mem, params, hsend, rfl, hmade, hmade.readsAs⟩
  returned := by
    intro t₁ t₂ req seqNum payload h
    obtain ⟨fd, packet, fd', packet', past, before, after, context, hcall, hnum, -, hother', hpayload,
      hgiven, -, -⟩ :=
      (answersRequest_of_callback hown hother happ happ' htaken htaken' h).answers
    have hcall' : .sendmsg conn fd (.request req.responseCallback req.responseContext) packet true ∈
        own := by
      rw [h]
      exact List.mem_append_left _ hcall
    have hresponse : .sendmsg peer fd' .response packet' true ∈ other := by
      rw [hother']
      exact List.mem_append_right _ List.mem_cons_self
    obtain ⟨mem, args, hargs⟩ := hrpc _ _ _ _ hcall'
    obtain ⟨mem', results, hresults⟩ := hrpc' _ _ _ _ hresponse
    rw [hpayload] at hresults
    refine ⟨fd, packet, fd', packet', context, before, after, mem, args, mem', results, hcall, hnum,
      hargs, ?_, hargs.readsAs, hother', hresults, hpayload, hresults.readsAs⟩
    exact hgiven.subset (List.mem_cons_of_mem _ (List.mem_singleton_self _))

end Calls

/-- **Remote calls return what was answered to them.**  In any state that the parties
    of a system get to, where the channels are FIFO for whole frames, as the receive
    loop takes them, the sequence ids and client ids have not wrapped, and the
    applications respond to what they were asked and send nothing but messages of the
    builder: whatever a receive callback is handed decodes to the parameters the peer
    built it from, and whatever the callback of a request is handed with status 0
    decodes to the results that the peer built for this request, after its receive
    callback was handed bytes that decode to the request's arguments. -/
theorem remoteCalls_of_run {s : Sys} (hreach : s.Reachable) (hregular : s.Regular) (p : Nat)
    (hserver : SpeaksRpc s.server.trace) (hclient : SpeaksRpc (s.client p).trace) :
    RemoteCalls p 0 s.server.trace (s.client p).trace ∧
      RemoteCalls 0 p (s.client p).trace s.server.trace := by
  obtain ⟨hsound, hsounds⟩ := hreach.sound
  have hrule : Justified Rule s.server.trace := (hsound.correlates hregular.serverBounded).rule
  have hrule' : Justified Rule (s.client p).trace :=
    ((hsounds p).correlates (hregular.clientBounded p)).rule
  refine ⟨?_, ?_⟩
  · exact remoteCalls_of_rules hrule hrule' hregular.server (hregular.client p)
      (hregular.fifo.toServer p) (hregular.fifo.toClient p) hserver hclient
  · exact remoteCalls_of_rules hrule' hrule (hregular.client p) hregular.server
      (hregular.fifo.toClient p) (hregular.fifo.toServer p) hclient hserver

/-- The message of one `uint8_t`, 7. -/
def argument : List Byte := [0, 5, 0x90, 0, 7]

/-- The message of one `uint16_t`, 8. -/
def result : List Byte := [0, 6, 0xA0, 0, 0, 8]

theorem argument_madeOf : MadeOf (fun _ => 0) [setParamAs typeUint8 7] argument :=
  ⟨List.replicate 16 0, 5, argument ++ List.replicate 11 0, by decide, rfl, by decide, rfl⟩

theorem result_madeOf : MadeOf (fun _ => 0) [setParamAs typeUint16 8] result :=
  ⟨List.replicate 16 0, 6, result ++ List.replicate 10 0, by decide, rfl, by decide, rfl⟩

/-- The request and the response of a remote call. -/
def callSent : Call := .sendmsg 0 3 (.request (some 9) 0) ⟨⟨0x8001, 13⟩, 5, argument⟩ true
def returnSent : Call := .sendmsg 1 4 .response ⟨⟨0x10001, 14⟩, 6, result⟩ true

def calledServerTrace : List Call :=
  [.accept 4, .acceptCallback 1, .frame 1 ⟨0x8001, argument⟩,
    .receiveCallback 1 0x10001 argument 0, returnSent]

def calledClientTrace : List Call :=
  [callSent, .frame 0 ⟨0x10001, result⟩,
    .responseCallback 0 ⟨1, 1, some 2, 1000, some 9, 0⟩ statusOk 1 result]

/-- The first client to be accepted has made a remote call, which has returned. -/
def called : Sys where
  server :=
    { server := ⟨3, some 0, false, [⟨1, 4, 1, some 2, ⟨0, true, []⟩, 0, 0⟩], 1, 0, some 1, 0,
        some 2, some 3⟩
      base := ⟨[⟨2, .client 1, true⟩, ⟨0, .server, true⟩], 3⟩, script := []
      trace := calledServerTrace }
  client := Function.update (Function.update (fun _ => Ipcc.openClient) 1
    { server := some ⟨3, 0, some 1, some 2, 0, some 0, ⟨1, true, [⟨1, 1, some 2, 1000, some 9, 0⟩]⟩⟩
      base := ⟨[⟨2, .request 1, true⟩, ⟨0, .server, true⟩], 3⟩, script := []
      trace := [callSent] }) 1
    { server := some ⟨3, 0, some 1, some 2, 0, some 0, ⟨1, true, []⟩⟩
      base := ⟨[⟨0, .server, true⟩], 3⟩, script := [], trace := calledClientTrace }

theorem called_reachable : called.Reachable := by
  refine ⟨openSys, openSys_opened, ?_⟩
  apply Relation.ReflTransGen.tail
  apply Relation.ReflTransGen.tail
  apply Relation.ReflTransGen.tail
  apply Relation.ReflTransGen.tail
  · exact .refl
  · exact .server (e := .accept (.good 4) []) rfl
  · exact .client 1 (e := .call (.sendRequest argument 5 (some 9) 0 1000 .good)) rfl
  · exact .server (e := .recv 1 [.data (Frame.mk 0x8001 argument).encode]
      [[.sendResponse 0x10001 result 6 .good]]) rfl
  · exact .client 1 (e := .recv [.data (Frame.mk 0x10001 result).encode] []) rfl

theorem called_client (p : Nat) :
    (called.client p).trace = if p = 1 then calledClientTrace else [] := by
  by_cases hp : p = 1
  · rw [hp, if_pos rfl]
    rfl
  · simp only [called]
    rw [Function.update_of_ne hp, Function.update_of_ne hp, if_neg hp]
    rfl

theorem called_regular : called.Regular := by
  have hserver : RespondsToRequests calledServerTrace := by
    have hgiven : RespondsToRequests ([] ++ [.accept 4] ++ [.acceptCallback 1] ++
        [.frame 1 ⟨0x8001, argument⟩] ++ [.receiveCallback 1 0x10001 argument 0]) := by
      have hempty : RespondsToRequests [] := justified_nil
      refine (((hempty.concat ?_).concat ?_).concat ?_).concat ?_ <;>
        · intro conn fd packet heq
          cases heq
    refine justified_concat.mpr ⟨hgiven, fun conn fd packet heq => ?_⟩
    cases heq
    exact ⟨by decide, 1, argument, 0, by decide⟩
  have hclient : RespondsToRequests calledClientTrace := by
    have hempty : RespondsToRequests [] := justified_nil
    refine ((hempty.concat ?_).concat ?_).concat ?_ <;>
      · intro conn fd packet heq
        cases heq
  refine ⟨⟨fun p => ?_, fun p => ?_⟩, hserver, fun p => ?_, ?_, fun p => ?_⟩
  · rw [called_client]
    show takenOn p calledServerTrace <+: _
    by_cases hp : p = 1
    · subst hp
      exact ⟨[], rfl⟩
    · have hnone : takenOn p calledServerTrace = [] := by
        simp [takenOn, takenOf, calledServerTrace, returnSent, Ne.symm hp]
      rw [hnone]
      exact List.nil_prefix
  · rw [called_client]
    show _ <+: sentOn p calledServerTrace
    by_cases hp : p = 1
    · subst hp
      exact ⟨[], rfl⟩
    · rw [if_neg hp]
      exact List.nil_prefix
  · rw [called_client]
    split_ifs
    · exact hclient
    · exact justified_nil
  · exact bounded_of_length (by decide)
  · rw [called_client]
    split_ifs
    · exact bounded_of_length (by decide)
    · exact bounded_of_length (by decide)

/-- A remote call with the argument 7, which returns 8. -/
theorem remoteCalls_of_run_called :
    RemoteCalls 1 0 called.server.trace (called.client 1).trace ∧
      RemoteCalls 0 1 (called.client 1).trace called.server.trace := by
  apply remoteCalls_of_run called_reachable called_regular 1
  · intro conn fd sentBy packet h
    have heq : Call.sendmsg conn fd sentBy packet true = returnSent := by
      simpa [called, calledServerTrace] using h
    cases heq
    exact ⟨_, _, result_madeOf⟩
  · intro conn fd sentBy packet h
    have heq : Call.sendmsg conn fd sentBy packet true = callSent := by
      rw [called_client, if_pos rfl] at h
      simpa [calledClientTrace] using h
    cases heq
    exact ⟨_, _, argument_madeOf⟩

end AfIpc.System
