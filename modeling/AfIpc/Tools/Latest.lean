/-
  AfIpc.Tools.Latest

  What the programs print is the message that they have received last.  The callback
  copies each message over the start of `outBuffer`, where more of an older and longer
  one may be left behind it; nothing of that is decoded or printed.
-/

import AfIpc.Tools.Arguments
import AfIpc.Tools.Program

namespace AfIpc.Tools

open AfIpc.Lib AfIpc.Rpc

-- ============================================================================
-- Rendering
-- ============================================================================

/-- The reply that the programs make of a message that is alone in `outBuffer`. -/
def replyOf (mem : Mem) (addr : Word) (payload : List Byte) : Except Trap (Option (List Byte)) :=
  renderReply (writeMem mem addr payload) addr payload payload.length

/-- What is printed of the messages `ps`: the reply made of the last. -/
def lastReply (mem : Mem) (addr : Word) (ps : List (List Byte)) : Except Trap (Option (List Byte)) :=
  ps.getLast?.elim (.ok none) (replyOf mem addr)

section Render

variable {mem mem' : Mem} {addr : Word}

/-- The loop finds in two memories what the parameters show in both. -/
theorem renderLoop_congr {params : List AfRpcParam} {pieces : List Piece}
    (h : List.Forall₂ (Shows mem) params pieces) (h' : List.Forall₂ (Shows mem') params pieces)
    (i pos : Nat) (s : List Byte) :
    renderLoop mem params i pos s = renderLoop mem' params i pos s := by
  induction h generalizing i pos s with
  | nil => rfl
  | @cons p piece params pieces hshow _ ih =>
      obtain ⟨hshow', hrest'⟩ := List.forall₂_cons.mp h'
      have hstep : ∀ pos s, pieceStep mem params i pos s piece = pieceStep mem' params i pos s piece := by
        intro pos s
        cases piece with
        | int text => simp only [pieceStep, ih hrest']
        | blob bytes => simp only [pieceStep, ih hrest']
        | string bytes => rfl
      rw [renderLoop_cons hshow, renderLoop_cons hshow']
      simp only [hstep]

/-- A message that is at the start of the buffer in two memories is rendered alike,
    whatever is behind it. -/
theorem renderReply_congr {payload : List Byte} (rest : List Byte)
    (hmem : readMem mem addr payload.length = payload)
    (hmem' : readMem mem' addr payload.length = payload) :
    renderReply mem addr (payload ++ rest) payload.length =
      renderReply mem' addr payload payload.length := by
  have hparams : ((maxParams : Nat) : Int) =
      (List.replicate maxParams (⟨0, 0⟩ : AfRpcParam)).length := by
    rw [List.length_replicate]
  obtain ⟨n, decoded, hdec⟩ := getParams_permissive addr payload hparams
  have hleft := getParams_left (List.replicate maxParams ⟨0, 0⟩) maxParams addr payload rest true
  rw [hdec] at hleft
  simp only [renderReply, hleft, hdec, bind, Except.bind]
  by_cases hneg : n < 0
  · rw [if_pos hneg, if_pos hneg]
  rw [if_neg hneg, if_neg hneg]
  by_cases hn : 1 ≤ n
  · obtain ⟨ts, rfl, -, -, htake, -⟩ := accepted_message hparams hdec hn
    have hsplit : encodeMessage ts = toBe 2 (messageSize ts) ++ ts.flatMap Tlv.encode := rfl
    rw [hsplit] at hmem hmem'
    have hshows := shows_decodedParams ts _ hmem
    have hshows' := shows_decodedParams ts _ hmem'
    rw [toBe_length] at hshows hshows'
    rw [htake, renderLoop_congr hshows hshows']
  · -- nothing is decoded
    obtain rfl : n = 0 := by omega
    rfl

/-- A longer store begins with the bytes of a shorter one. -/
theorem readMem_writeMem_left (mem : Mem) {payload rest : List Byte}
    (h : addr.toNat + (payload ++ rest).length ≤ 2 ^ 64) :
    readMem (writeMem mem addr (payload ++ rest)) addr payload.length = payload := by
  have hall := readMem_writeMem mem h
  have htake : (readMem (writeMem mem addr (payload ++ rest)) addr (payload ++ rest).length).take
      payload.length = readMem (writeMem mem addr (payload ++ rest)) addr payload.length := by
    rw [readMem, ← List.map_take, List.take_range, List.length_append]
    rw [Nat.min_eq_left (by omega)]
    rfl
  rw [← htake, hall, List.take_left]

end Render

-- ============================================================================
-- Receiving
-- ============================================================================

/-- The variables behind the messages `ps`. -/
structure Latest (ps : List (List Byte)) (st : Received) : Prop where
  length : st.outBuffer.length = instrMaxLen
  silent : ps = [] → st.dataReceived = false
  last : ∀ p, ps.getLast? = some p → st.dataReceived = true ∧ st.outBufferSize = p.length ∧
    ∃ rest, st.outBuffer = p ++ rest

theorem latest_start : Latest [] ⟨List.replicate instrMaxLen 0, 0, false⟩ where
  length := List.length_replicate
  silent := fun _ => rfl
  last := fun p hp => by cases hp

/-- **The callback** keeps it, or writes outside `outBuffer`. -/
theorem Latest.receive {ps : List (List Byte)} {st st' : Received} (h : Latest ps st)
    {data : Option (List Byte)} (hrx : rxCallback data st = .ok st') :
    Latest (ps ++ data.toList) st' := by
  cases data with
  | none =>
      obtain rfl := Except.ok.inj hrx
      rw [Option.toList_none, List.append_nil]
      exact h
  | some data =>
      simp only [rxCallback, store, Nat.zero_add, List.take_zero, List.nil_append] at hrx
      split_ifs at hrx with hfits
      · obtain rfl := Except.ok.inj hrx
        refine ⟨?_, fun hnil => ?_, fun p hp => ?_⟩
        · show (data ++ st.outBuffer.drop data.length).length = instrMaxLen
          rw [List.length_append, List.length_drop, ← h.length]
          omega
        · exact absurd hnil (List.append_ne_nil_of_right_ne_nil ps (List.cons_ne_nil data []))
        · rw [Option.toList_some, List.getLast?_concat] at hp
          obtain rfl := Option.some.inj hp
          exact ⟨rfl, rfl, _, rfl⟩
      · cases hrx

/-- **What is printed** is the reply made of the last message, if there is one. -/
theorem Latest.output {ps : List (List Byte)} {t : Tool} (h : Latest ps t.received) (mem : Mem)
    {addr : Word} (haddr : addr.toNat + instrMaxLen ≤ 2 ^ 64) :
    t.output mem addr = ofTrap (lastReply mem addr ps) := by
  rw [lastReply]
  cases hlast : ps.getLast? with
  | none =>
      rw [Tool.output, h.silent (List.getLast?_eq_none_iff.mp hlast)]
      rfl
  | some p =>
      obtain ⟨hreceived, hsize, rest, hbuffer⟩ := h.last p hlast
      have hlen := h.length
      rw [hbuffer] at hlen
      have hle : p.length ≤ instrMaxLen := by
        rw [← hlen, List.length_append]
        omega
      rw [Tool.output, if_pos hreceived, hsize, hbuffer]
      refine congrArg ofTrap ?_
      exact renderReply_congr rest (readMem_writeMem_left mem (by omega))
        (readMem_writeMem mem (by omega))

/-- The memory around it makes no difference. -/
theorem lastReply_mem {addr : Word} (haddr : addr.toNat + instrMaxLen ≤ 2 ^ 64)
    {ps : List (List Byte)} {st : Received} (h : Latest ps st) (mem mem' : Mem) :
    lastReply mem addr ps = lastReply mem' addr ps := by
  rw [lastReply, lastReply]
  cases hlast : ps.getLast? with
  | none => rfl
  | some p =>
      obtain ⟨-, -, rest, hbuffer⟩ := h.last p hlast
      have hlen := h.length
      rw [hbuffer, List.length_append] at hlen
      have hread : ∀ mem, readMem (writeMem mem addr p) addr p.length = p :=
        fun mem => readMem_writeMem mem (by omega)
      have hcongr := renderReply_congr [] (hread mem) (hread mem')
      rw [List.append_nil] at hcongr
      exact hcongr

end AfIpc.Tools
