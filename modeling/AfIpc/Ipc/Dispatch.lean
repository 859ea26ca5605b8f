/-
  AfIpc.Ipc.Dispatch

  What `af_ipc_handle_receive_message` does with a chunk of any bytes.

  `Chain` says which frames of a chunk are valid, by offsets: the chain starts at
  0, each frame begins where the one before it ends, and it stops at the first
  header that is not valid.  The handler takes the frames of the chain and
  nothing else, and `Dispatches` says what is done with each.  The loop is also
  given with loads that fail outside the chunk, and never fails by one of them.
-/

import AfIpc.Ipc.RequestSpec
import AfIpc.Ipc.Receive

namespace AfIpc.Ipc

open AfIpc.Lib

-- ============================================================================
-- The chain of frames
-- ============================================================================

/-- The `len` field of the header at `p`. -/
def lenAt (buf : List Byte) (p : Nat) : Nat := (MsgHdr.decode (buf.drop p)).len.toNat

/-- The header at `p` is there with at least one byte behind it, and its `len`
    lies between the header and the end of the chunk. -/
def ValidAt (buf : List Byte) (p : Nat) : Prop :=
  p + msghdrLen < buf.length ∧ msghdrLen ≤ lenAt buf p ∧ lenAt buf p ≤ buf.length - p

/-- The frame at `p`; its payload is the slice from `p + 8` to `p + len`. -/
def frameAt (buf : List Byte) (p : Nat) : Frame where
  seqNum := (MsgHdr.decode (buf.drop p)).seqNum
  payload := (buf.drop (p + msghdrLen)).take (lenAt buf p - msghdrLen)

/-- The frames from `p` on, and where they stop. -/
inductive Chain (buf : List Byte) : Nat → List Frame → Nat → Prop
  | stop {p : Nat} (h : ¬ ValidAt buf p) : Chain buf p [] p
  | frame {p stop : Nat} {fs : List Frame} (h : ValidAt buf p)
      (hrest : Chain buf (p + lenAt buf p) fs stop) : Chain buf p (frameAt buf p :: fs) stop

theorem head_of_valid {buf : List Byte} {p : Nat} (h : ValidAt buf p) :
    frames.head (buf.drop p) = some (frameAt buf p) := by
  obtain ⟨hroom, hmin, hmax⟩ := h
  rw [lenAt] at hmin hmax
  have hlen : (buf.drop p).length = buf.length - p := List.length_drop
  show Frame.head (buf.drop p) = _
  simp only [Frame.head]
  rw [if_neg (by omega), if_neg (by omega), List.drop_drop]
  rfl

theorem head_of_invalid {buf : List Byte} {p : Nat} (h : ¬ ValidAt buf p) :
    frames.head (buf.drop p) = none := by
  have hlen : (buf.drop p).length = buf.length - p := List.length_drop
  rw [ValidAt, lenAt] at h
  show Frame.head (buf.drop p) = none
  simp only [Frame.head]
  by_cases hshort : (buf.drop p).length ≤ msghdrLen
  · rw [if_pos hshort]
  · rw [if_neg hshort, if_pos (by omega)]

theorem size_frameAt {buf : List Byte} {p : Nat} (h : ValidAt buf p) :
    (frameAt buf p).size = lenAt buf p :=
  (Frame.head_eq_some (head_of_valid h)).2.1.symm

/-- The chain is what the splitter finds. -/
theorem Chain.items_eq {buf : List Byte} {p stop : Nat} {fs : List Frame}
    (h : Chain buf p fs stop) : frames.items (buf.drop p) = fs := by
  induction h with
  | stop hbad => exact frames.items_of_none (head_of_invalid hbad)
  | @frame p stop fs hgood hrest ih =>
      have hsize : frames.size (frameAt buf p) = lenAt buf p := size_frameAt hgood
      rw [frames.items_of_some (head_of_valid hgood), hsize, List.drop_drop, ih]

/-- Every chunk has a chain: each frame moves the offset towards the end. -/
theorem exists_chain (buf : List Byte) (p : Nat) : ∃ fs stop, Chain buf p fs stop := by
  induction hn : buf.length - p using Nat.strongRecOn generalizing p with
  | _ n ih =>
      by_cases h : ValidAt buf p
      · have hlt : buf.length - (p + lenAt buf p) < n := by
          obtain ⟨hroom, hmin, -⟩ := h
          rw [msghdrLen] at hroom hmin
          omega
        obtain ⟨fs, stop, hrest⟩ := ih _ hlt (p + lenAt buf p) rfl
        exact ⟨frameAt buf p :: fs, stop, .frame h hrest⟩
      · exact ⟨[], p, .stop h⟩

theorem Chain.le {buf : List Byte} {p stop : Nat} {fs : List Frame} (h : Chain buf p fs stop) :
    p ≤ stop := by
  induction h with
  | stop _ => exact Nat.le_refl _
  | frame _ _ ih => omega

-- ============================================================================
-- Chunks that agree up to the end of the chain
-- ============================================================================

theorem slice_congr {buf buf' : List Byte} {stop p n : Nat} (h : buf'.take stop = buf.take stop)
    (hn : p + n ≤ stop) : (buf'.drop p).take n = (buf.drop p).take n := by
  have hcut : ∀ xs : List Byte, (xs.drop p).take n = ((xs.take stop).drop p).take n := by
    intro xs
    rw [List.drop_take, List.take_take, Nat.min_eq_left (by omega)]
  rw [hcut buf', hcut buf, h]

/-- A header is in its eight bytes. -/
theorem MsgHdr.decode_take (xs : List Byte) :
    MsgHdr.decode (xs.take msghdrLen) = MsgHdr.decode xs := by
  have hseq : (xs.take msghdrLen).take 4 = xs.take 4 := by
    rw [List.take_take]
    rfl
  have hlen : ((xs.take msghdrLen).drop 4).take 2 = (xs.drop 4).take 2 := by
    rw [List.drop_take, List.take_take]
    rfl
  simp only [MsgHdr.decode, hseq, hlen]

theorem decode_congr {buf buf' : List Byte} {stop p : Nat} (h : buf'.take stop = buf.take stop)
    (hp : p + msghdrLen ≤ stop) :
    MsgHdr.decode (buf'.drop p) = MsgHdr.decode (buf.drop p) := by
  rw [← MsgHdr.decode_take, slice_congr h hp, MsgHdr.decode_take]

/-- Chunks that agree up to where both chains stop have the same chain.  The
    bytes behind that do not matter, and neither does how many they are. -/
theorem Chain.congr {buf buf' : List Byte} {p stop : Nat} {fs fs' : List Frame}
    (h : Chain buf p fs stop) (h' : Chain buf' p fs' stop)
    (hagree : buf'.take stop = buf.take stop) : fs' = fs := by
  induction h generalizing fs' with
  | stop hbad =>
      cases h' with
      | stop _ => rfl
      | frame hgood' hrest' =>
          -- a frame would have moved on
          have hle := hrest'.le
          obtain ⟨-, hmin, -⟩ := hgood'
          rw [msghdrLen] at hmin
          omega
  | @frame p stop fs hgood hrest ih =>
      have hle := hrest.le
      have hmin : msghdrLen ≤ lenAt buf p := hgood.2.1
      have hhdr := decode_congr hagree (p := p) (by omega)
      have hlen : lenAt buf' p = lenAt buf p := by rw [lenAt, lenAt, hhdr]
      have hframe : frameAt buf' p = frameAt buf p := by
        have hpay := slice_congr hagree (p := p + msghdrLen) (n := lenAt buf p - msghdrLen)
          (by omega)
        rw [frameAt, frameAt, hhdr, hlen, hpay]
      cases h' with
      | stop _ =>
          rw [msghdrLen] at hmin
          omega
      | frame hgood' hrest' =>
          rw [hlen] at hrest'
          rw [hframe, ih hrest' hagree]

-- ============================================================================
-- What is done with a frame
-- ============================================================================

section Frames

variable {W : Type}

/-- What `af_ipc_handle_receive_message` can do with a frame it has taken. -/
inductive Dispatches (R : Receiver W) (f : Frame) (w : W) : Except Fault W → Prop
  /-- The id is 0, or the N bit is set. -/
  | received (h : getSeqId f.seqNum = 0 ∨ f.seqNum.getLsbD 15 = true) :
      Dispatches R f w
        (R.receive (deliveredSeqNum R.clientId (getSeqId f.seqNum)) f.payload (R.note f w))
  /-- The table cannot be reached. -/
  | lost {e : Fault} (hid : getSeqId f.seqNum ≠ 0) (hbit : f.seqNum.getLsbD 15 = false)
      (htable : R.table (R.note f w) = .error e) : Dispatches R f w (.error e)
  /-- No pending request has the number. -/
  | unmatched {rc : ReqControl} {base : EventBase} (hid : getSeqId f.seqNum ≠ 0)
      (hbit : f.seqNum.getLsbD 15 = false) (htable : R.table (R.note f w) = .ok (rc, base))
      (hnone : ∀ r ∈ rc.pendingRequests, r.seqNum ≠ getSeqId f.seqNum) :
      Dispatches R f w (.ok (R.note f w))
  /-- The first pending request with the number is completed. -/
  | completed {rc : ReqControl} {base : EventBase} {before after : List Request} {req : Request}
      (hid : getSeqId f.seqNum ≠ 0) (hbit : f.seqNum.getLsbD 15 = false)
      (htable : R.table (R.note f w) = .ok (rc, base))
      (hpending : rc.pendingRequests = before ++ req :: after)
      (hfirst : ∀ r ∈ before, r.seqNum ≠ getSeqId f.seqNum)
      (hreq : req.seqNum = getSeqId f.seqNum) :
      Dispatches R f w
        (R.setTable { rc with pendingRequests := before ++ after }
            (if req.timeoutVal > 0 then eventFreeIf req.event base else base) (R.note f w) >>=
          R.respond req (getSeqId f.seqNum) f.payload)

/-- A search that finds a request splits the list there. -/
theorem takeResponse_split {seqNum : BitVec 32} {rc rc' : ReqControl} {base base' : EventBase}
    {req : Request} (h : takeResponse seqNum rc base = (some req, rc', base')) :
    ∃ before after, rc.pendingRequests = before ++ req :: after ∧
      (∀ r ∈ before, r.seqNum ≠ seqNum) ∧ req.seqNum = seqNum ∧
      rc' = { rc with pendingRequests := before ++ after } ∧
      base' = if req.timeoutVal > 0 then eventFreeIf req.event base else base := by
  obtain ⟨hfind, rfl, rfl⟩ := takeResponse_found h
  obtain ⟨hfound, before, after, hpending, hbefore⟩ := List.find?_eq_some_iff_append.mp hfind
  have hfirst : ∀ r ∈ before, r.seqNum ≠ seqNum := by
    intro r hr
    simpa using hbefore r hr
  have hreq : req.seqNum = seqNum := of_decide_eq_true hfound
  refine ⟨before, after, hpending, hfirst, hreq, ?_, rfl⟩
  have herase : rc.pendingRequests.eraseP (fun r => r.seqNum = seqNum) = before ++ after := by
    rw [hpending, List.eraseP_append_right _ (by simpa using hfirst),
      List.eraseP_cons_of_pos (by simpa using hreq)]
  rw [afIpcRemoveRequest, herase]

theorem handleFrame_dispatches (R : Receiver W) (f : Frame) (w : W) :
    Dispatches R f w (handleFrame R f w) := by
  by_cases hnew : getSeqId f.seqNum = 0 ∨ f.seqNum.getLsbD 15 = true
  · simp only [handleFrame, isNewRequest_getSeqId]
    rw [if_pos hnew]
    exact .received hnew
  · obtain ⟨hid, hbit⟩ := not_or.mp hnew
    rw [Bool.not_eq_true] at hbit
    have hold : ¬ (getSeqId f.seqNum = 0 ∨ isNewRequest (getSeqId f.seqNum) = true) := by
      rw [isNewRequest_getSeqId]
      exact hnew
    cases htable : R.table (R.note f w) with
    | error e =>
        simp only [handleFrame]
        rw [if_neg hold, htable]
        exact .lost hid hbit htable
    | ok found =>
        obtain ⟨rc, base⟩ := found
        cases htake : takeResponse (getSeqId f.seqNum) rc base with
        | mk found left =>
            obtain ⟨rc', base'⟩ := left
            cases found with
            | none =>
                rw [handleFrame_unmatched hold htable htake]
                exact .unmatched hid hbit htable (takeResponse_unmatched htake)
            | some req =>
                rw [handleFrame_matched hold htable htake]
                obtain ⟨before, after, hpending, hfirst, hreq, rfl, rfl⟩ :=
                  takeResponse_split htake
                exact .completed hid hbit htable hpending hfirst hreq

-- ============================================================================
-- The loop with its loads
-- ============================================================================

/-- The loop of `af_ipc_handle_receive_message` with every byte it reads, the
    payload it passes on included, taken by a load that fails outside the chunk. -/
def frameLoopLoading (dispatch : Frame → W → Except Fault W) (buf : List Byte) :
    Nat → Nat → W → Except (Trap ⊕ Fault) W
  | 0, _, _ => .error (.inl .outOfFuel)
  | fuel + 1, pos, w => do
    if ¬ pos < buf.length then
      return w
    if pos + msghdrLen ≥ buf.length then
      return w
    let hdr ← (load buf pos msghdrLen).mapError .inl
    let msghdr := MsgHdr.decode hdr
    if pos + msghdr.len.toNat > buf.length ∨ msghdr.len.toNat < msghdrLen then
      return w
    let payload ← (load buf (pos + msghdrLen) (msghdr.len.toNat - msghdrLen)).mapError .inl
    let w ← (dispatch ⟨msghdr.seqNum, payload⟩ w).mapError .inr
    frameLoopLoading dispatch buf fuel (pos + msghdr.len.toNat) w

/-- No load fails, and the fuel lasts. -/
theorem frameLoopLoading_eq (dispatch : Frame → W → Except Fault W) (buf : List Byte)
    (fuel pos : Nat) (w : W) (hfuel : buf.length - pos < fuel) :
    frameLoopLoading dispatch buf fuel pos w =
      (frameLoop dispatch buf fuel pos w).mapError .inr := by
  induction fuel generalizing pos w with
  | zero => omega
  | succ fuel ih =>
      simp only [frameLoop, frameLoopLoading]
      by_cases hpos : pos < buf.length
      · rw [if_neg (not_not.mpr hpos), if_neg (not_not.mpr hpos)]
        by_cases hshort : pos + msghdrLen ≥ buf.length
        · rw [if_pos hshort, if_pos hshort]
          rfl
        · rw [if_neg hshort, if_neg hshort]
          have hhdr : load buf pos msghdrLen = .ok ((buf.drop pos).take msghdrLen) :=
            load_eq_ok_iff.mpr ⟨by omega, rfl⟩
          rw [hhdr]
          show (if _ then _ else _) = _
          rw [MsgHdr.decode_take]
          by_cases hbad : pos + (MsgHdr.decode (buf.drop pos)).len.toNat > buf.length ∨
              (MsgHdr.decode (buf.drop pos)).len.toNat < msghdrLen
          · rw [if_pos hbad, if_pos hbad]
            rfl
          · rw [if_neg hbad, if_neg hbad]
            have hpay : load buf (pos + msghdrLen)
                ((MsgHdr.decode (buf.drop pos)).len.toNat - msghdrLen) =
                .ok ((buf.drop (pos + msghdrLen)).take
                  ((MsgHdr.decode (buf.drop pos)).len.toNat - msghdrLen)) :=
              load_eq_ok_iff.mpr ⟨by omega, rfl⟩
            have hmin : 8 ≤ (MsgHdr.decode (buf.drop pos)).len.toNat := by
              rw [msghdrLen] at hbad
              omega
            rw [hpay]
            cases hdispatch : dispatch ⟨(MsgHdr.decode (buf.drop pos)).seqNum,
                (buf.drop (pos + msghdrLen)).take
                  ((MsgHdr.decode (buf.drop pos)).len.toNat - msghdrLen)⟩ w with
            | error e =>
                show (dispatch _ w).mapError Sum.inr >>= _ = _
                rw [hdispatch]
                rfl
            | ok w' =>
                show (dispatch _ w).mapError Sum.inr >>= _ = _
                rw [hdispatch]
                exact ih _ w' (by omega)
      · rw [if_pos hpos, if_pos hpos]
        rfl

/-- The handler with its loads. -/
def handleReceiveMessageLoading (R : Receiver W) (buf : List Byte) (w : W) :
    Except (Trap ⊕ Fault) W :=
  frameLoopLoading (handleFrame R) buf (buf.length + 1) 0 w

/-- **The dispatcher.**  On any bytes the handler stays inside the chunk, and it
    dispatches the frames of the chain from offset 0, once each and in order.
    What is at or behind the offset where the chain stops has no influence. -/
theorem handler_dispatches_chain (R : Receiver W) (buf : List Byte) :
    ∃ fs stop, Chain buf 0 fs stop ∧
      (∀ w, handleReceiveMessageLoading R buf w =
        (run (fun w f => handleFrame R f w) w fs).mapError .inr) ∧
      (∀ w, afIpcHandleReceiveMessage R buf w = run (fun w f => handleFrame R f w) w fs) ∧
      (∀ f w, Dispatches R f w (handleFrame R f w)) ∧
      ∀ buf' fs', Chain buf' 0 fs' stop → buf'.take stop = buf.take stop →
        ∀ w, afIpcHandleReceiveMessage R buf' w = afIpcHandleReceiveMessage R buf w := by
  obtain ⟨fs, stop, hchain⟩ := exists_chain buf 0
  have hrun : ∀ w, afIpcHandleReceiveMessage R buf w = run (fun w f => handleFrame R f w) w fs := by
    intro w
    rw [afIpcHandleReceiveMessage_eq, ← hchain.items_eq]
    rfl
  refine ⟨fs, stop, hchain, ?_, hrun, handleFrame_dispatches R, ?_⟩
  · intro w
    rw [← hrun w]
    exact frameLoopLoading_eq (handleFrame R) buf (buf.length + 1) 0 w (by omega)
  · intro buf' fs' hchain' hagree w
    have hsame : fs' = fs := hchain.congr hchain' hagree
    subst hsame
    rw [hrun w, afIpcHandleReceiveMessage_eq, ← hchain'.items_eq]
    rfl

end Frames

end AfIpc.Ipc
