/-
  AfIpc.Ipc.Grouping

  Frames that arrive whole, but not one by one.  The handler follows the chain of
  frames through a chunk and stops when eight bytes or fewer are left; a frame
  with no payload has exactly eight.  So such a frame is taken if something
  follows it in the chunk and dropped if nothing does (`items_sentBytes_append`,
  `items_sentBytes_drop`), and how whole frames are grouped into chunks does not
  matter exactly as long as none of them comes last in its chunk.
-/

import AfIpc.Ipc.RequestSpec
import AfIpc.Ipc.Receive

namespace AfIpc.Ipc

open AfIpc.Lib

-- ============================================================================
-- Frames that can be sent
-- ============================================================================

/-- The payload has a size, an `int`, that the size test of `af_ipc_send` lets pass. -/
def Frame.Emittable (f : Frame) : Prop :=
  f.payload.length < 2 ^ 31 ∧ oversize f.payload.length = false

/-- The bytes that `sendmsg` is given for the frame. -/
def Frame.sentBytes (f : Frame) : List Byte :=
  (makePacket f.seqNum f.payload f.payload.length).bytes

/-- The chunk that a group of frames makes. -/
def chunkOfFrames (group : List Frame) : List Byte := group.flatMap Frame.sentBytes

/-- The group ends in a frame with no payload. -/
def EndsEmpty (group : List Frame) : Prop := ∃ f, group.getLast? = some f ∧ f.payload = []

section Emittable

variable {f : Frame}

theorem Frame.Emittable.size_le (h : f.Emittable) : f.size ≤ maxMsglen := by
  obtain ⟨hint, hover⟩ := h
  have hlimit : ((f.payload.length + msghdrLen : Int) % 2 ^ 64).toNat ≤ maxMsglen := by
    simpa [oversize, sizeT] using hover
  simp only [Frame.size, msghdrLen, maxMsglen] at hlimit ⊢
  omega

theorem Frame.Emittable.sentBytes_eq (h : f.Emittable) : f.sentBytes = f.encode := by
  have hsize := h.size_le
  simp only [maxMsglen] at hsize
  have hlen : BitVec.ofInt 16 (f.payload.length + msghdrLen : Int) = BitVec.ofNat 16 f.size := by
    rw [Frame.size, Nat.add_comm, ← Int.natCast_add, BitVec.ofInt_natCast]
  have hiov : sizeT f.payload.length = f.payload.length := by
    rw [sizeT_of_nonneg (by omega) (by have := h.1; omega), Int.toNat_natCast]
  show (MsgHdr.mk f.seqNum _).encode ++ f.payload.take (sizeT f.payload.length) = f.encode
  rw [hlen, hiov, List.take_length]
  rfl

theorem Frame.Emittable.sentBytes_ne_nil (h : f.Emittable) : f.sentBytes ≠ [] := by
  have hlen : f.sentBytes.length = f.size := by rw [h.sentBytes_eq, Frame.encode_length]
  intro hnil
  rw [hnil, Frame.size, msghdrLen, List.length_nil] at hlen
  omega

/-- A frame with a payload, or with something behind it, is taken. -/
theorem Frame.Emittable.head_sentBytes (h : f.Emittable) {ys : List Byte}
    (htail : f.payload ≠ [] ∨ ys ≠ []) : Frame.head (f.sentBytes ++ ys) = some f := by
  rw [h.sentBytes_eq]
  apply Frame.head_encode_of_tail h.size_le htail

/-- A frame with no payload and nothing behind it is not. -/
theorem Frame.Emittable.items_sentBytes_nil (h : f.Emittable) (hnil : f.payload = []) :
    frames.items f.sentBytes = [] := by
  apply frames.items_of_none
  show Frame.head f.sentBytes = none
  have hlen : f.sentBytes.length = msghdrLen := by
    rw [h.sentBytes_eq, Frame.encode_length, Frame.size, hnil]
    rfl
  rw [Frame.head, if_pos (by omega)]

end Emittable

-- ============================================================================
-- The frames found in a group
-- ============================================================================

theorem EndsEmpty.cons {group : List Frame} (h : EndsEmpty group) (f : Frame) :
    EndsEmpty (f :: group) := by
  obtain ⟨last, hlast, hnil⟩ := h
  refine ⟨last, ?_, hnil⟩
  rw [List.getLast?_cons, hlast]
  rfl

section Group

variable {group : List Frame}

/-- Every frame of a group is found if its last frame is. -/
theorem items_sentBytes_append (hemit : ∀ f ∈ group, f.Emittable) {ys : List Byte}
    (hend : ys = [] → ¬ EndsEmpty group) :
    frames.items (chunkOfFrames group ++ ys) = group ++ frames.items ys := by
  induction group with
  | nil => rfl
  | cons f group ih =>
      have hf : f.Emittable := hemit f List.mem_cons_self
      have hgroup : ∀ g ∈ group, g.Emittable := fun g hg => hemit g (List.mem_cons_of_mem f hg)
      have htail : f.payload ≠ [] ∨ chunkOfFrames group ++ ys ≠ [] := by
        by_cases hnil : f.payload = []
        · right
          intro hempty
          obtain ⟨hrest, hys⟩ := List.append_eq_nil_iff.mp hempty
          cases group with
          | nil => exact hend hys ⟨f, rfl, hnil⟩
          | cons g rest =>
              rw [chunkOfFrames, List.flatMap_cons] at hrest
              exact (hgroup g List.mem_cons_self).sentBytes_ne_nil
                (List.append_eq_nil_iff.mp hrest).1
        · exact Or.inl hnil
      have hhead : frames.head (f.sentBytes ++ (chunkOfFrames group ++ ys)) = some f :=
        hf.head_sentBytes htail
      have hsize : frames.size f = f.sentBytes.length := by
        rw [hf.sentBytes_eq, Frame.encode_length]
        rfl
      have hih := ih hgroup (fun hys hends => hend hys (hends.cons f))
      rw [chunkOfFrames, List.flatMap_cons, List.append_assoc]
      show frames.items (f.sentBytes ++ (chunkOfFrames group ++ ys)) = _
      rw [frames.items_of_some hhead, hsize, List.drop_left, hih]
      rfl

theorem items_sentBytes (hemit : ∀ f ∈ group, f.Emittable) (hend : ¬ EndsEmpty group) :
    frames.items (chunkOfFrames group) = group := by
  have h := @items_sentBytes_append group hemit [] (fun _ => hend)
  rw [List.append_nil, Splitter.items_nil, List.append_nil] at h
  exact h

/-- A last frame with no payload is dropped. -/
theorem items_sentBytes_drop (hemit : ∀ f ∈ group, f.Emittable) (hend : EndsEmpty group) :
    frames.items (chunkOfFrames group) = group.dropLast := by
  obtain ⟨last, hlast, hnil⟩ := hend
  obtain ⟨init, rfl⟩ := List.getLast?_eq_some_iff.mp hlast
  have hlastEmit : last.Emittable := hemit last (List.mem_append_right init List.mem_cons_self)
  have hinit : ∀ f ∈ init, f.Emittable := fun f hf => hemit f (List.mem_append_left [last] hf)
  have hchunk : chunkOfFrames (init ++ [last]) = chunkOfFrames init ++ last.sentBytes := by
    simp [chunkOfFrames]
  rw [hchunk, items_sentBytes_append hinit (fun hys => absurd hys hlastEmit.sentBytes_ne_nil),
    hlastEmit.items_sentBytes_nil hnil, List.append_nil, List.dropLast_concat]

theorem items_sentBytes_iff (hemit : ∀ f ∈ group, f.Emittable) :
    frames.items (chunkOfFrames group) = group ↔ ¬ EndsEmpty group := by
  refine ⟨?_, ?_⟩
  · intro hitems hend
    rw [items_sentBytes_drop hemit hend] at hitems
    obtain ⟨last, hlast, -⟩ := hend
    have hne : group ≠ [] := by
      rintro rfl
      cases hlast
    have hpos := List.length_pos_iff.mpr hne
    have hlen := congrArg List.length hitems
    rw [List.length_dropLast] at hlen
    omega
  · exact items_sentBytes hemit

theorem items_sentBytes_length_le (hemit : ∀ f ∈ group, f.Emittable) :
    (frames.items (chunkOfFrames group)).length ≤ group.length := by
  by_cases hend : EndsEmpty group
  · rw [items_sentBytes_drop hemit hend, List.length_dropLast]
    omega
  · rw [items_sentBytes hemit hend]

end Group

/-- A list of groups, one chunk each, gives all its frames exactly if no group
    ends in a frame with no payload. -/
theorem flatMap_items_groups_iff {groups : List (List Frame)}
    (hemit : ∀ group ∈ groups, ∀ f ∈ group, f.Emittable) :
    (groups.map chunkOfFrames).flatMap frames.items = groups.flatten ↔
      ∀ group ∈ groups, ¬ EndsEmpty group := by
  have hlen : ∀ gs : List (List Frame), (∀ group ∈ gs, ∀ f ∈ group, f.Emittable) →
      ((gs.map chunkOfFrames).flatMap frames.items).length ≤ gs.flatten.length := by
    intro gs hgs
    induction gs with
    | nil => exact Nat.le_refl 0
    | cons g gs ih =>
        have hg := items_sentBytes_length_le (hgs g List.mem_cons_self)
        have hrest := ih (fun group h => hgs group (List.mem_cons_of_mem g h))
        rw [List.map_cons, List.flatMap_cons, List.flatten_cons, List.length_append,
          List.length_append]
        omega
  induction groups with
  | nil => simp
  | cons g gs ih =>
      have hg := hemit g List.mem_cons_self
      have hgs : ∀ group ∈ gs, ∀ f ∈ group, f.Emittable :=
        fun group h => hemit group (List.mem_cons_of_mem g h)
      rw [List.map_cons, List.flatMap_cons, List.flatten_cons, List.forall_mem_cons]
      refine Iff.trans ?_ (and_congr (items_sentBytes_iff hg) (ih hgs))
      refine ⟨?_, ?_⟩
      · intro heq
        -- neither part finds more than it holds, so each finds what it holds
        have hle := items_sentBytes_length_le hg
        have hrest := hlen gs hgs
        have htotal := congrArg List.length heq
        rw [List.length_append, List.length_append] at htotal
        exact List.append_inj heq (by omega)
      · rintro ⟨hhead, hrest⟩
        rw [hhead, hrest]

-- ============================================================================
-- What the handler makes of them
-- ============================================================================

/-- Handling the chunks of the groups in turn dispatches every frame, in order:
    from any state, with any handler arguments, it comes to what dispatching the
    frames one by one comes to. -/
def DispatchesAll (groups : List (List Frame)) : Prop :=
  ∀ (W : Type) (R : Receiver W) (w : W),
    run (fun w buf => afIpcHandleReceiveMessage R buf w) w (groups.map chunkOfFrames) =
      run (fun w f => handleFrame R f w) w groups.flatten

/-- Handling the frames and what follows them in one call comes to what handling
    one after the other does. -/
def SplitsAlike (group : List Frame) (rest : List Byte) : Prop :=
  ∀ (W : Type) (R : Receiver W) (w : W),
    afIpcHandleReceiveMessage R (chunkOfFrames group ++ rest) w =
      afIpcHandleReceiveMessage R (chunkOfFrames group) w >>= afIpcHandleReceiveMessage R rest

/-- Handler arguments that keep the frames they are given and have nothing
    pending. -/
def recorder : Receiver (List Frame) where
  clientId := 0
  table := fun _ => .ok (ReqControl.zero, ⟨[], 0⟩)
  setTable := fun _ _ seen => .ok seen
  note := fun f seen => seen ++ [f]
  receive := fun _ _ seen => .ok seen
  respond := fun _ _ _ seen => .ok seen

theorem handleFrame_recorder (f : Frame) (seen : List Frame) :
    handleFrame recorder f seen = .ok (seen ++ [f]) := by
  simp only [handleFrame]
  split_ifs <;> rfl

theorem run_recorder (fs seen : List Frame) :
    run (fun w f => handleFrame recorder f w) seen fs = .ok (seen ++ fs) := by
  induction fs generalizing seen with
  | nil => rw [run_nil, List.append_nil]
  | cons f fs ih =>
      have hnext := ih (seen ++ [f])
      rw [List.append_assoc] at hnext
      rw [run_cons, handleFrame_recorder]
      exact hnext

/-- Two lists of frames that every handler treats alike are the same. -/
theorem frames_eq_of_run {fs gs : List Frame}
    (h : ∀ (W : Type) (R : Receiver W) (w : W),
      run (fun w f => handleFrame R f w) w fs = run (fun w f => handleFrame R f w) w gs) :
    fs = gs := by
  have hrec := h (List Frame) recorder []
  rw [run_recorder, run_recorder, Except.ok.injEq, List.nil_append, List.nil_append] at hrec
  exact hrec

theorem run_chunks {W : Type} (R : Receiver W) (w : W) (chunks : List (List Byte)) :
    run (fun w buf => afIpcHandleReceiveMessage R buf w) w chunks =
      run (fun w f => handleFrame R f w) w (chunks.flatMap frames.items) := by
  rw [← run_flatMap]
  congr 1
  funext w buf
  exact afIpcHandleReceiveMessage_eq R buf w

theorem dispatchesAll_iff {groups : List (List Frame)}
    (hemit : ∀ group ∈ groups, ∀ f ∈ group, f.Emittable) :
    DispatchesAll groups ↔ ∀ group ∈ groups, ¬ EndsEmpty group := by
  rw [← flatMap_items_groups_iff hemit]
  refine ⟨?_, ?_⟩
  · intro hall
    apply frames_eq_of_run
    intro W R w
    rw [← run_chunks]
    exact hall W R w
  · intro hitems W R w
    rw [run_chunks, hitems]

theorem splitsAlike_iff {group : List Frame} {rest : List Byte}
    (hemit : ∀ f ∈ group, f.Emittable) :
    SplitsAlike group rest ↔ (EndsEmpty group → rest = []) := by
  have hboth : ∀ (W : Type) (R : Receiver W) (w : W),
      (afIpcHandleReceiveMessage R (chunkOfFrames group) w >>= afIpcHandleReceiveMessage R rest) =
        run (fun w f => handleFrame R f w) w
          (frames.items (chunkOfFrames group) ++ frames.items rest) := by
    intro W R w
    rw [run_append, afIpcHandleReceiveMessage_eq]
    congr 1
    funext w'
    exact afIpcHandleReceiveMessage_eq R rest w'
  refine ⟨?_, ?_⟩
  · intro hsplit hend
    by_contra hne
    have hall := items_sentBytes_append hemit (fun hnil => absurd hnil hne)
    have heq : group ++ frames.items rest = group.dropLast ++ frames.items rest := by
      rw [← items_sentBytes_drop hemit hend, ← hall]
      apply frames_eq_of_run
      intro W R w
      rw [← hboth, ← afIpcHandleReceiveMessage_eq]
      exact hsplit W R w
    have hdrop := List.append_cancel_right heq
    rw [← items_sentBytes_drop hemit hend] at hdrop
    exact (items_sentBytes_iff hemit).mp hdrop.symm hend
  · intro hrest W R w
    rw [hboth, afIpcHandleReceiveMessage_eq]
    by_cases hend : EndsEmpty group
    · rw [hrest hend, List.append_nil, Splitter.items_nil, List.append_nil]
    · rw [items_sentBytes_append hemit (fun _ => hend), items_sentBytes hemit hend]

/-- **How whole frames are grouped matters at one place only.**  For every list of
    groups of frames that `af_ipc_send` can emit, handling the chunks in turn
    dispatches every frame once, in order, if and only if no group ends in a frame
    with no payload.  And handling whole frames and anything behind them in one
    call comes to handling one after the other if and only if the frames do not
    end in one with no payload, or nothing is behind them. -/
theorem grouping_iff (groups : List (List Frame)) (group : List Frame) (rest : List Byte)
    (hemits : ∀ group ∈ groups, ∀ f ∈ group, f.Emittable) (hemit : ∀ f ∈ group, f.Emittable) :
    (DispatchesAll groups ↔ ∀ group ∈ groups, ¬ EndsEmpty group) ∧
      (SplitsAlike group rest ↔ (EndsEmpty group → rest = [])) :=
  ⟨dispatchesAll_iff hemits, splitsAlike_iff hemit⟩

/-- A frame with no payload in front of one with a byte, in one chunk and in two. -/
theorem grouping_iff_two :
    (DispatchesAll [[⟨0, []⟩, ⟨0, [1]⟩]] ↔ ∀ group ∈ [[⟨0, []⟩, ⟨0, [1]⟩]], ¬ EndsEmpty group) ∧
      (SplitsAlike [⟨0, [1]⟩] [2] ↔ (EndsEmpty [⟨0, [1]⟩] → [(2 : Byte)] = [])) := by
  have hempty : Frame.Emittable ⟨0, []⟩ := ⟨by decide, by decide⟩
  have hbyte : Frame.Emittable ⟨0, [1]⟩ := ⟨by decide, by decide⟩
  apply grouping_iff
  · intro group hgroup f hf
    rw [List.mem_singleton] at hgroup
    subst hgroup
    rcases List.mem_cons.mp hf with rfl | hf
    · exact hempty
    · rw [List.mem_singleton.mp hf]
      exact hbyte
  · intro f hf
    rw [List.mem_singleton.mp hf]
    exact hbyte

/-- Handler arguments whose `receiveCallback` keeps the payloads it is given. -/
def payloadListener : Receiver (List (List Byte)) where
  clientId := 0
  table := fun _ => .ok (ReqControl.zero, ⟨[], 0⟩)
  setTable := fun _ _ heard => .ok heard
  note := fun _ heard => heard
  receive := fun _ payload heard => .ok (heard ++ [payload])
  respond := fun _ _ _ heard => .ok heard

/-- An unsolicited message with no payload never reaches the `receiveCallback` on
    its own, and does in front of another message. -/
theorem not_grouping_header_only :
    ¬ DispatchesAll [[⟨0, []⟩]] ∧ ¬ SplitsAlike [⟨0, []⟩] (Frame.sentBytes ⟨0, [1]⟩) := by
  have halone : afIpcHandleReceiveMessage payloadListener (chunkOfFrames [⟨0, []⟩]) [] = .ok [] :=
    rfl
  refine ⟨?_, ?_⟩
  · intro hall
    have h := hall _ payloadListener []
    have hone : run (fun w f => handleFrame payloadListener f w) [] [⟨0, []⟩] = .ok [[]] := rfl
    rw [List.map_singleton, run_cons, halone, List.flatten_singleton, hone] at h
    cases h
  · intro hsplit
    have h := hsplit _ payloadListener []
    have htwo : afIpcHandleReceiveMessage payloadListener
        (chunkOfFrames [⟨0, []⟩] ++ Frame.sentBytes ⟨0, [1]⟩) [] = .ok [[], [1]] := by rfl
    have hnext : afIpcHandleReceiveMessage payloadListener (Frame.sentBytes ⟨0, [1]⟩) [] =
        .ok [[1]] := by rfl
    have hseq : (afIpcHandleReceiveMessage payloadListener (chunkOfFrames [⟨0, []⟩]) [] >>=
        afIpcHandleReceiveMessage payloadListener (Frame.sentBytes ⟨0, [1]⟩)) = .ok [[1]] := by
      rw [halone]
      exact hnext
    rw [htwo, hseq] at h
    cases h

end AfIpc.Ipc
