/-
  AfIpc.Tools.Buffers

  The fixed arrays of the two programs: `outBuffer`, the array of decoded
  parameters, `tmp`, `ret_string`, and the buffer of the hex dump.

  The loop over a reply stays in `ret_string` whatever is in it; `tmp` it leaves
  for an integer that has a sign and ten digits, if it gets that far
  (`Overlong`).  The dump has room for 255 bytes and not for 256.
-/

import AfIpc.Rpc.Canonical
import AfIpc.Tools.Printable
import AfIpc.Tools.Sending

namespace AfIpc.Tools

open AfIpc.Lib AfIpc.Rpc

-- ============================================================================
-- Receiving
-- ============================================================================

/-- `outBuffer`, `outBufferSize` and `dataReceived`. -/
structure Received where
  outBuffer : List Byte
  outBufferSize : Int
  dataReceived : Bool

/-- The copy of what has been received; `data` is NULL if there is nothing. -/
def rxCallback (data : Option (List Byte)) (st : Received) : Except Trap Received :=
  match data with
  | none => .ok st
  | some data => do
    let outBuffer ← store st.outBuffer 0 data
    return ⟨outBuffer, data.length, true⟩

/-- `ipc_send_rx_callback`, apart from the end of the event loop. -/
def ipcSendRxCallback := rxCallback

/-- `handle_receive` of `ipc_wait`. -/
def handleReceive := rxCallback

/-- A reply to `ipc_send`, from the callback to the end of `main`. -/
def ipcSendReceive (mem : Mem) (addr : Word) (payload : List Byte) (st : Received) :
    Except Trap (Option (List Byte)) := do
  let st ← ipcSendRxCallback (some payload) st
  if st.dataReceived then ipcSendReply mem addr st.outBuffer st.outBufferSize else return none

/-- A message to `ipc_wait`. -/
def ipcWaitReceive (mem : Mem) (addr : Word) (payload : List Byte) (st : Received) :
    Except Trap (Option (List Byte)) := do
  let st ← handleReceive (some payload) st
  if st.dataReceived then ipcWaitReply mem addr st.outBuffer st.outBufferSize else return none

-- ============================================================================
-- The loop over the reply
-- ============================================================================

/-- The loop comes to the piece behind `before`: there is no string before it, and
    room for the space. -/
def Reached (first : Bool) (pos : Nat) (before : List Piece) : Prop :=
  (∀ p ∈ before, p.isString = false) ∧
    (first = true ∧ before = [] ∨ pos + (joined first before).length + 1 < retStringSize - 1)

/-- At `pos` there is an integer that does not fit in `tmp`, or the loop comes to
    one later. -/
def Piece.TooLongAt (pos : Nat) (rest : Nat → Prop) : Piece → Prop
  | .int text => tmpSize < text.length + 1 ∨
      pos + text.length < retStringSize - 1 ∧ rest (pos + text.length)
  | .blob bytes => pos + bytes.length * 2 < retStringSize - 1 ∧ rest (pos + bytes.length * 2)
  | .string _ => False

/-- The loop comes to an integer that does not fit in `tmp`. -/
def TooLong : Bool → Nat → List Piece → Prop
  | _, _, [] => False
  | true, pos, p :: ps => p.TooLongAt pos (fun pos => TooLong false pos ps)
  | false, pos, p :: ps => pos + 1 < retStringSize - 1 ∧
      p.TooLongAt (pos + 1) (fun pos => TooLong false pos ps)

/-- The step of the loop behind the space, if the rest of the loop is known. -/
theorem pieceStep_ok_iff {mem : Mem} {params : List AfRpcParam} {pieces : List Piece} {i : Nat}
    (hnext : ∀ {pos s}, s.length = retStringSize →
      ((∃ out, renderLoop mem params (i + 1) pos s = .ok out) ↔ ¬ TooLong false pos pieces))
    {pos : Nat} {s : List Byte} (hs : s.length = retStringSize) (piece : Piece) :
    (∃ out, pieceStep mem params i pos s piece = .ok out) ↔
      ¬ piece.TooLongAt pos (fun pos => TooLong false pos pieces) := by
  have hsize : retStringSize = 256 := rfl
  have htmp : tmpSize = 11 := rfl
  cases piece with
  | int text =>
      simp only [pieceStep, Piece.TooLongAt]
      by_cases hlong : tmpSize < text.length + 1
      · rw [if_pos hlong]
        refine iff_of_false ?_ (not_not.mpr (.inl hlong))
        rintro ⟨_, h⟩
        cases h
      rw [if_neg hlong]
      by_cases hfits : pos + text.length < retStringSize - 1
      · obtain ⟨s', hstore, hlen⟩ := @store_ok s 0 (text ++ [0])
          (by rw [List.length_append, List.length_singleton]; omega)
        rw [if_pos hfits, hstore]
        have hiff := @hnext (pos + text.length) s' (hlen.trans hs)
        refine ⟨?_, ?_⟩
        · rintro hok (hbad | ⟨_, hbad⟩)
          · exact hlong hbad
          · exact hiff.mp hok hbad
        · exact fun hfine => hiff.mpr (fun hbad => hfine (.inr ⟨hfits, hbad⟩))
      · rw [if_neg hfits]
        refine ⟨?_, ?_⟩
        · rintro _ (hbad | ⟨hbad, _⟩)
          · exact hlong hbad
          · exact hfits hbad
        · exact fun _ => ⟨_, rfl⟩
  | blob bytes =>
      simp only [pieceStep, Piece.TooLongAt]
      by_cases hfits : pos + bytes.length * 2 < retStringSize - 1
      · obtain ⟨s', hloop, hfills⟩ := @fills_hexLoop bytes s pos (by omega)
        rw [if_pos hfits, hloop]
        have hiff := @hnext (pos + bytes.length * 2) s' (hfills.length.trans hs)
        refine ⟨?_, ?_⟩
        · rintro hok ⟨_, hbad⟩
          exact hiff.mp hok hbad
        · exact fun hfine => hiff.mpr (fun hbad => hfine ⟨hfits, hbad⟩)
      · rw [if_neg hfits]
        exact ⟨fun _ hbad => hfits hbad.1, fun _ => ⟨_, rfl⟩⟩
  | string bytes =>
      rw [pieceStep_string]
      refine ⟨?_, ?_⟩
      · exact fun _ => not_false
      · intro _
        by_cases hfits : pos + bytes.length + 2 < retStringSize - 1
        · obtain ⟨s', hstores, _⟩ := @storeString_ok s pos bytes (by omega)
          rw [if_pos hfits, hstores]
          exact ⟨_, rfl⟩
        · rw [if_neg hfits]
          exact ⟨_, rfl⟩

/-- The loop is safe unless it comes to such an integer. -/
theorem render_ok_iff {mem : Mem} {params : List AfRpcParam} {pieces : List Piece}
    (h : List.Forall₂ (Shows mem) params pieces) {i pos : Nat} {s : List Byte}
    (hs : s.length = retStringSize) :
    (∃ out, renderLoop mem params i pos s = .ok out) ↔ ¬ TooLong (i = 0) pos pieces := by
  induction h generalizing i pos s with
  | nil =>
      rw [TooLong]
      exact ⟨fun _ => not_false, fun _ => ⟨_, rfl⟩⟩
  | @cons p piece params pieces hshow _ ih =>
      have hturn : ∀ {pos' s'}, s'.length = retStringSize →
          ((∃ out, pieceStep mem params i pos' s' piece = .ok out) ↔
            ¬ piece.TooLongAt pos' (fun pos => TooLong false pos pieces)) := by
        intro pos' s' hs'
        refine pieceStep_ok_iff ?_ hs' piece
        intro pos'' s'' hs''
        have hiff := @ih (i + 1) pos'' s'' hs''
        rw [decide_eq_false (Nat.succ_ne_zero i)] at hiff
        exact hiff
      rw [renderLoop_cons hshow, spaced]
      by_cases hi : i = 0
      · rw [if_pos hi, decide_eq_true hi]
        exact hturn hs
      · rw [if_neg hi, decide_eq_false hi]
        by_cases hspace : pos + 1 < retStringSize - 1
        · have hsize : retStringSize = 256 := rfl
          obtain ⟨s', hstore, hlen⟩ := @store_ok s pos [space]
            (by rw [List.length_singleton]; omega)
          rw [if_pos hspace, hstore]
          refine (hturn (hlen.trans hs)).trans ?_
          rw [TooLong]
          exact not_congr (and_iff_right hspace).symm
        · rw [if_neg hspace, TooLong]
          exact ⟨fun _ hbad => hspace hbad.1, fun _ => ⟨_, rfl⟩⟩

theorem tooLongAt_iff (piece : Piece) (pos : Nat) (rest : Nat → Prop) :
    piece.TooLongAt pos rest ↔ (∃ text, piece = .int text ∧ tmpSize < text.length + 1) ∨
      piece.isString = false ∧ pos + piece.text.length < retStringSize - 1 ∧
        rest (pos + piece.text.length) := by
  cases piece with
  | int text =>
      refine ⟨?_, ?_⟩
      · rintro (hlong | hrest)
        · exact .inl ⟨text, rfl, hlong⟩
        · exact .inr ⟨rfl, hrest⟩
      · rintro (⟨text', htext, hlong⟩ | ⟨_, hrest⟩)
        · rw [Piece.int.inj htext]
          exact .inl hlong
        · exact .inr hrest
  | blob bytes =>
      have hlen : (Piece.blob bytes).text.length = bytes.length * 2 := hexText_length bytes
      rw [hlen]
      refine ⟨?_, ?_⟩
      · exact fun hrest => .inr ⟨rfl, hrest⟩
      · rintro (⟨_, htext, _⟩ | ⟨_, hrest⟩)
        · cases htext
        · exact hrest
  | string bytes =>
      refine ⟨?_, ?_⟩
      · exact False.elim
      · rintro (⟨_, htext, _⟩ | ⟨hstring, _⟩)
        · cases htext
        · cases hstring

/-- The first piece may have a space in front of it. -/
theorem tooLong_cons (first : Bool) (pos : Nat) (p : Piece) (ps : List Piece) :
    TooLong first pos (p :: ps) ↔ (first = true ∨ pos + 1 < retStringSize - 1) ∧
      p.TooLongAt (pos + if first then 0 else 1) (fun pos => TooLong false pos ps) := by
  cases first with
  | true =>
      rw [TooLong, if_pos rfl]
      exact (and_iff_right (.inl rfl)).symm
  | false =>
      rw [TooLong, if_neg (by simp)]
      exact and_congr_left' (by simp)

/-- Where such an integer stands. -/
theorem tooLong_iff {pieces : List Piece} {first : Bool} {pos : Nat} :
    TooLong first pos pieces ↔ ∃ before text after, pieces = before ++ .int text :: after ∧
      Reached first pos before ∧ tmpSize < text.length + 1 := by
  induction pieces generalizing first pos with
  | nil =>
      rw [TooLong]
      refine ⟨False.elim, ?_⟩
      rintro ⟨before, text, after, hsplit, _⟩
      cases before <;> cases hsplit
  | cons p ps ih =>
      have hlen : ∀ before, (joined first (p :: before)).length =
          (if first then 0 else 1) + p.text.length + (joined false before).length := by
        intro before
        rw [joined, List.length_append, List.length_append]
        cases first with
        | true => exact (Nat.add_assoc _ _ _).symm
        | false => exact (Nat.add_assoc _ _ _).symm
      rw [tooLong_cons, tooLongAt_iff, ih]
      refine ⟨?_, ?_⟩
      · rintro ⟨hspace, ⟨text, rfl, hlong⟩ | ⟨hstring, _, before, text, after, rfl, hreach, hlong⟩⟩
        · refine ⟨[], text, ps, rfl, ⟨by simp, ?_⟩, hlong⟩
          rcases hspace with hfirst | hspace
          · exact .inl ⟨hfirst, rfl⟩
          · exact .inr hspace
        · refine ⟨p :: before, text, after, rfl, ⟨?_, .inr ?_⟩, hlong⟩
          · exact List.forall_mem_cons.mpr ⟨hstring, hreach.1⟩
          · rw [hlen]
            rcases hreach.2 with ⟨hfalse, _⟩ | hroom
            · cases hfalse
            · omega
      · rintro ⟨before, text, after, hsplit, hreach, hlong⟩
        cases before with
        | nil =>
            obtain ⟨rfl, rfl⟩ := List.cons.inj hsplit
            refine ⟨?_, .inl ⟨text, rfl, hlong⟩⟩
            rcases hreach.2 with ⟨hfirst, _⟩ | hroom
            · exact .inl hfirst
            · exact .inr hroom
        | cons q before =>
            obtain ⟨rfl, rfl⟩ := List.cons.inj hsplit
            obtain ⟨hstring, hstrings⟩ := List.forall_mem_cons.mp hreach.1
            have hroom : pos + (joined first (p :: before)).length + 1 < retStringSize - 1 := by
              rcases hreach.2 with ⟨_, hnil⟩ | hroom
              · cases hnil
              · exact hroom
            rw [hlen] at hroom
            refine ⟨?_, .inr ⟨hstring, by omega, before, text, after, rfl, ⟨hstrings, .inr ?_⟩, hlong⟩⟩
            · cases first with
              | true => exact .inl rfl
              | false =>
                  rw [if_neg (by simp)] at hroom
                  exact .inr (by omega)
            · omega

-- ============================================================================
-- The reply
-- ============================================================================

/-- There is an int32 of -10^9 or less in the reply, with no string before it, and
    what is before it fits in `ret_string` with the space behind it. -/
def Overlong (ts : List Tlv) : Prop :=
  ∃ before t after, ts = before ++ t :: after ∧ (∀ u ∈ before, isString u = false) ∧
    (before = [] ∨ (replyText before).length + 1 < retStringSize - 1) ∧
    t.type = typeInt32 ∧ numberOf t .int32 ≤ -10 ^ 9

/-- The other kinds have no such number. -/
theorem kind_of_numberOf_le {t : Tlv} {k : IntKind} (h : numberOf t k ≤ -10 ^ 9) : k = .int32 := by
  have hlow : k.isSigned = true →
      -(2 : Int) ^ (8 * k.width - 1) ≤ numberOf t k := by
    intro hsigned
    rw [numberOf, IntKind.value, if_pos hsigned]
    exact BitVec.le_toInt _
  have hpos : k.isSigned = false → 0 ≤ numberOf t k := by
    intro hunsigned
    rw [numberOf, IntKind.value, if_neg (by simp [hunsigned])]
    exact Int.natCast_nonneg _
  cases k with
  | uint8 | uint16 | uint32 =>
      have hnonneg := hpos rfl
      omega
  | int8 | int16 =>
      have hbound := hlow rfl
      simp only [IntKind.width] at hbound
      omega
  | int32 => rfl

theorem overlong_iff (ts : List Tlv) : Overlong ts ↔ TooLong true 0 (ts.map pieceOf) := by
  have hreach : ∀ before : List Tlv, Reached true 0 (before.map pieceOf) ↔
      (∀ u ∈ before, isString u = false) ∧
        (before = [] ∨ (replyText before).length + 1 < retStringSize - 1) := by
    intro before
    rw [Reached, List.forall_mem_map, ← replyText_eq, Nat.zero_add, List.map_eq_nil_iff]
    simp only [isString_pieceOf, true_and]
  rw [tooLong_iff]
  refine ⟨?_, ?_⟩
  · rintro ⟨before, t, after, rfl, hstrings, hroom, htype, hle⟩
    have htext := pieceOf_int (t := t) (k := .int32) htype
    refine ⟨before.map pieceOf, decimalInt (numberOf t .int32), after.map pieceOf, ?_,
      (hreach before).mpr ⟨hstrings, hroom⟩, ?_⟩
    · rw [List.map_append, List.map_cons, htext]
    · have hshort := text_short_iff t .int32
      omega
  · rintro ⟨before', text, after', hsplit, hreached, hlong⟩
    obtain ⟨before, rest, rfl, rfl, hrest⟩ := List.map_eq_append_iff.mp hsplit
    obtain ⟨t, after, rfl, ht, rfl⟩ := List.map_eq_cons_iff.mp hrest
    obtain ⟨hstrings, hroom⟩ := (hreach before).mp hreached
    rcases payloadSize_eq_some t.wf with ⟨k, hk, _⟩ | ⟨hblob, _⟩
    · rw [pieceOf_int hk] at ht
      obtain rfl := Piece.int.inj ht
      have hshort := text_short_iff t k
      have hle : numberOf t k ≤ -10 ^ 9 := by omega
      obtain rfl := kind_of_numberOf_le hle
      exact ⟨before, t, after, rfl, hstrings, hroom, hk, hle⟩
    · have hint := (isInt_pieceOf t).mpr hblob
      rw [ht] at hint
      cases hint

/-- A reply that fits in `outBuffer` is printed or refused, unless it is the encoding
    of parameters among which the loop comes to such an int32. -/
theorem renderReply_ok_iff {mem : Mem} {addr : Word} {payload : List Byte} (rest : List Byte)
    (hlen : payload.length ≤ instrMaxLen) (hmem : readMem mem addr payload.length = payload) :
    (∃ out, renderReply mem addr (payload ++ rest) payload.length = .ok out) ↔
      ∀ ts, payload = encodeMessage ts → ts.length ≤ maxParams → ¬ Overlong ts := by
  have hmax : instrMaxLen = 256 := rfl
  have hmessage : ∀ ts, payload = encodeMessage ts → ts.length ≤ maxParams →
      ((∃ out, renderReply mem addr (payload ++ rest) payload.length = .ok out) ↔
        ¬ Overlong ts) := by
    intro ts hts h16
    subst hts
    rw [encodeMessage_length] at hlen
    have hsplit : encodeMessage ts = toBe 2 (messageSize ts) ++ ts.flatMap Tlv.encode := rfl
    rw [hsplit] at hmem
    have hshows := shows_decodedParams ts _ hmem
    rw [toBe_length] at hshows
    have hok := @render_ok_iff _ _ _ hshows 0 0 (List.replicate retStringSize 0)
      List.length_replicate
    rw [overlong_iff, encodeMessage_length, renderReply_eq h16 (by omega)]
    refine Iff.trans ?_ hok
    cases renderLoop mem (decodedParams addr 2 ts) 0 0 (List.replicate retStringSize 0) with
    | error e => exact ⟨fun ⟨_, h⟩ => (by cases h), fun ⟨_, h⟩ => (by cases h)⟩
    | ok out => exact ⟨fun _ => ⟨_, rfl⟩, fun _ => ⟨_, rfl⟩⟩
  refine ⟨?_, ?_⟩
  · intro hok ts hts h16
    exact (hmessage ts hts h16).mp hok
  · intro hfine
    have hparams : ((maxParams : Nat) : Int) =
        (List.replicate maxParams (⟨0, 0⟩ : AfRpcParam)).length := by
      rw [List.length_replicate]
    obtain ⟨n, decoded, hdec⟩ := getParams_permissive addr payload hparams
    by_cases hn : 1 ≤ n
    · obtain ⟨ts, hts, _, _, _, h16⟩ := accepted_message hparams hdec hn
      have h16' : ts.length ≤ maxParams := by omega
      exact (hmessage ts hts h16').mpr (hfine ts hts h16')
    · have hleft := getParams_left (List.replicate maxParams ⟨0, 0⟩) maxParams addr payload rest true
      rw [hdec] at hleft
      have hzero : n.toNat = 0 := by omega
      simp only [renderReply, hleft, bind, Except.bind, hzero, List.take_zero]
      split_ifs
      · exact ⟨_, rfl⟩
      · exact ⟨_, rfl⟩

/-- The callback, and what `main` does with what it has stored. -/
theorem receive_ok_iff {mem : Mem} {addr : Word} {payload : List Byte} {st : Received}
    (hst : st.outBuffer.length = instrMaxLen) (hmem : readMem mem addr payload.length = payload) :
    (∃ out, ipcSendReceive mem addr payload st = .ok out) ↔ payload.length ≤ instrMaxLen ∧
      ∀ ts, payload = encodeMessage ts → ts.length ≤ maxParams → ¬ Overlong ts := by
  by_cases hlen : payload.length ≤ instrMaxLen
  · have hstore := store_append [] st.outBuffer payload (by omega)
    rw [List.nil_append, List.length_nil, List.nil_append] at hstore
    have hrun : ipcSendReceive mem addr payload st =
        renderReply mem addr (payload ++ st.outBuffer.drop payload.length) payload.length := by
      simp only [ipcSendReceive, ipcSendRxCallback, rxCallback, hstore, bind, Except.bind, pure,
        Except.pure]
      rfl
    rw [hrun, renderReply_ok_iff _ hlen hmem]
    exact (and_iff_right hlen).symm
  · have hstore : store st.outBuffer 0 payload = .error .outOfBounds := if_neg (by omega)
    have hrun : ipcSendReceive mem addr payload st = .error .outOfBounds := by
      simp only [ipcSendReceive, ipcSendRxCallback, rxCallback, hstore, bind, Except.bind]
    rw [hrun]
    exact ⟨fun ⟨_, h⟩ => (by cases h), fun h => absurd h.1 hlen⟩

-- ============================================================================
-- The hex dump
-- ============================================================================

/-- A dump of `n` bytes behind others takes three characters for each. -/
theorem hexDumpLoop_ok (bs : List Byte) {i pos : Nat} {buffer : List Byte} (hi : i ≠ 0)
    (h : pos + 3 * bs.length < buffer.length) :
    ∃ buffer', hexDumpLoop bs i pos buffer = .ok (pos + 3 * bs.length, buffer') ∧
      buffer'.length = buffer.length := by
  induction bs generalizing i pos buffer with
  | nil => exact ⟨buffer, rfl, rfl⟩
  | cons b bs ih =>
      rw [List.length_cons] at h ⊢
      have htext : (space :: hexByte b).length = 3 := rfl
      obtain ⟨buffer₁, hstore, hlen₁⟩ := @store_ok buffer pos ((space :: hexByte b) ++ [0])
        (by rw [List.length_append, htext, List.length_singleton]; omega)
      obtain ⟨buffer₂, hloop, hlen₂⟩ := @ih (i + 1) (pos + 3) buffer₁ (Nat.succ_ne_zero i) (by omega)
      refine ⟨buffer₂, ?_, hlen₂.trans hlen₁⟩
      simp only [hexDumpLoop, if_neg hi, hstore, bind, Except.bind, htext, hloop]
      congr 2
      omega

/-- The first byte takes two, and the loop ends with room for the newline. -/
theorem hexDumpLoop_start {bs buffer : List Byte} (h : 3 * bs.length ≤ buffer.length)
    (hpos : 0 < buffer.length) :
    ∃ buffer', hexDumpLoop bs 0 0 buffer = .ok (3 * bs.length - 1, buffer') ∧
      buffer'.length = buffer.length := by
  cases bs with
  | nil => exact ⟨buffer, rfl, rfl⟩
  | cons b bs =>
      rw [List.length_cons] at h ⊢
      have htext : (hexByte b).length = 2 := rfl
      obtain ⟨buffer₁, hstore, hlen₁⟩ := @store_ok buffer 0 (hexByte b ++ [0])
        (by rw [List.length_append, htext, List.length_singleton]; omega)
      obtain ⟨buffer₂, hloop, hlen₂⟩ := @hexDumpLoop_ok bs 1 2 buffer₁ Nat.one_ne_zero (by omega)
      refine ⟨buffer₂, ?_, hlen₂.trans hlen₁⟩
      have hstep : hexDumpLoop (b :: bs) 0 0 buffer =
          (store buffer 0 (hexByte b ++ [0])).bind (hexDumpLoop bs 1 2) := rfl
      rw [hstep, hstore]
      refine hloop.trans ?_
      congr 2
      omega

/-- The NUL behind the newline has no room if the last byte fills the buffer. -/
theorem hexDump_ok_iff {buffer txBuffer : List Byte} {size : Int}
    (hbuffer : buffer.length = instrMaxLen * 3)
    (hsize : (txBuffer.take size.toNat).length ≤ instrMaxLen) :
    (∃ out, hexDump buffer txBuffer size = .ok out) ↔
      (txBuffer.take size.toNat).length ≠ instrMaxLen := by
  rw [instrMaxLen] at hbuffer hsize ⊢
  obtain ⟨buffer₁, hloop, hlen₁⟩ := @hexDumpLoop_start (txBuffer.take size.toNat) buffer (by omega)
    (by omega)
  obtain ⟨buffer₂, hstore, hlen₂⟩ := @store_ok buffer₁ (3 * (txBuffer.take size.toNat).length - 1) [10]
    (by rw [List.length_singleton]; omega)
  simp only [hexDump, hloop, bind, Except.bind, hstore]
  refine ⟨?_, ?_⟩
  · rintro ⟨out, hout⟩ hfull
    unfold store at hout
    split_ifs at hout with hroom
    rw [List.length_singleton] at hroom
    omega
  · intro hfine
    obtain ⟨out, hout, _⟩ := @store_ok buffer₂ (3 * (txBuffer.take size.toNat).length - 1 + 1) [0]
      (by rw [List.length_singleton]; omega)
    exact ⟨out, hout⟩

/-- The dump is the only thing that goes wrong, with a message that fills `txBuffer`. -/
theorem wrapper_ok_iff (mem : Mem) (debug4 : Bool) (ps : List ValidParam) :
    (∃ out, ipcSendWrapper mem debug4 (ps.map ValidParam.param) = .ok out) ↔
      (debug4 = true → encodedSize ps ≠ instrMaxLen) := by
  have hbuf : (List.replicate instrMaxLen (0 : Byte)).length = instrMaxLen := List.length_replicate
  have hsize := encodedSize_eq mem ps
  have hdump : ∀ {size : Int} {txBuffer : List Byte},
      afRpcCreateBufferWithParams mem (List.replicate instrMaxLen 0) instrMaxLen
        (ps.map ValidParam.param) = .ok (size, txBuffer) →
      (txBuffer.take size.toNat).length ≤ instrMaxLen →
      ((∃ out, ipcSendWrapper mem debug4 (ps.map ValidParam.param) = .ok out) ↔
        (debug4 = true → (txBuffer.take size.toNat).length ≠ instrMaxLen)) := by
    intro size txBuffer hcreate hle
    have hiff := @hexDump_ok_iff (List.replicate (instrMaxLen * 3) 0) txBuffer size
      List.length_replicate hle
    simp only [ipcSendWrapper, hcreate, bind, Except.bind]
    cases debug4 with
    | false => exact ⟨fun _ h => (by cases h), fun _ => ⟨_, rfl⟩⟩
    | true =>
        simp only [if_true, true_implies]
        rw [← hiff]
        cases hexDump (List.replicate (instrMaxLen * 3) 0) txBuffer size with
        | error e => exact ⟨fun ⟨_, h⟩ => (by cases h), fun ⟨_, h⟩ => (by cases h)⟩
        | ok out => exact ⟨fun _ => ⟨_, rfl⟩, fun _ => ⟨_, rfl⟩⟩
  by_cases hfit : messageSize (ps.map (ValidParam.tlv mem)) ≤ instrMaxLen
  · have hcreate := create_eq_encodeMessage mem ps (List.replicate instrMaxLen 0) (by rw [hbuf]; exact hfit)
      (by rw [instrMaxLen] at hfit; omega)
    rw [hbuf] at hcreate
    have hlen : ∀ rest : List Byte, ((encodeMessage (ps.map (ValidParam.tlv mem)) ++ rest).take
        (messageSize (ps.map (ValidParam.tlv mem)) : Int).toNat).length =
          messageSize (ps.map (ValidParam.tlv mem)) := by
      intro rest
      rw [Int.toNat_natCast, List.length_take, List.length_append, encodeMessage_length]
      omega
    rw [hdump hcreate (by rw [hlen]; exact hfit), hlen, hsize]
    exact imp_congr_right (fun _ => not_congr (by omega))
  · obtain ⟨txBuffer, hcreate⟩ := create_too_large mem ps (List.replicate instrMaxLen 0)
      (by rw [hbuf, instrMaxLen]; omega) (by rw [hbuf]; omega)
    rw [hbuf] at hcreate
    have hzero : txBuffer.take errBufferOverflow.toNat = [] := List.take_zero
    rw [hdump hcreate (by rw [hzero]; exact Nat.zero_le _), hzero, hsize]
    refine ⟨?_, ?_⟩
    · intro _ _
      omega
    · intro _ _ h
      rw [instrMaxLen] at h
      cases h

-- ============================================================================
-- All arrays
-- ============================================================================

/-- No write leaves its array, from the arguments to the reply: `ps` are the parameters
    that are sent, and `payload` is what is received. -/
structure InBounds (mem : Mem) (debug4 : Bool) (ps : List ValidParam) (mem' : Mem) (addr : Word)
    (payload : List Byte) (st : Received) : Prop where
  sent : ∃ out, ipcSendWrapper mem debug4 (ps.map ValidParam.param) = .ok out
  reply : ∃ out, ipcSendReceive mem' addr payload st = .ok out
  waited : ∃ out, ipcWaitReceive mem' addr payload st = .ok out

/-- **The arrays of the two programs are large enough** exactly if the payload fits in
    `outBuffer`, no int32 that the loop over it comes to has a sign and ten digits, and
    at debug level 4 the message that is sent does not fill `txBuffer`. -/
theorem inBounds_iff (mem : Mem) (debug4 : Bool) (ps : List ValidParam) (mem' : Mem) (addr : Word)
    (payload : List Byte) (st : Received) (hst : st.outBuffer.length = instrMaxLen)
    (hmem : readMem mem' addr payload.length = payload) :
    InBounds mem debug4 ps mem' addr payload st ↔
      payload.length ≤ instrMaxLen ∧
        (∀ ts, payload = encodeMessage ts → ts.length ≤ maxParams → ¬ Overlong ts) ∧
        (debug4 = true → encodedSize ps ≠ instrMaxLen) := by
  have hreply := receive_ok_iff hst hmem
  have hwrapper := wrapper_ok_iff mem debug4 ps
  refine ⟨?_, ?_⟩
  · intro h
    obtain ⟨hlen, hfine⟩ := hreply.mp h.reply
    exact ⟨hlen, hfine, hwrapper.mp h.sent⟩
  · rintro ⟨hlen, hfine, hsize⟩
    have hok := hreply.mpr ⟨hlen, hfine⟩
    exact ⟨hwrapper.mpr hsize, hok, hok⟩

/-- A byte is sent, and the reply is 7 and a blob. -/
theorem inBounds_iff_uint8 :
    let payload : List Byte := [0, 9, 0x90, 0, 7, 0, 2, 0xAB, 0xCD]
    let st : Received := ⟨List.replicate instrMaxLen 0, 0, false⟩
    let ps : List ValidParam := [⟨⟨5, 0x9000⟩, .inl ⟨.uint8, by decide⟩⟩]
    InBounds (fun _ => 0) true ps (fun a => payload.getD (a.toNat - 64) 0) 64 payload st ↔
      payload.length ≤ instrMaxLen ∧
        (∀ ts, payload = encodeMessage ts → ts.length ≤ maxParams → ¬ Overlong ts) ∧
        (true = true → encodedSize ps ≠ instrMaxLen) := by
  intro payload st ps
  exact inBounds_iff (fun _ => 0) true ps (fun a => payload.getD (a.toNat - 64) 0) 64 payload st
    List.length_replicate (by decide)

/-- A payload of 257 bytes, the smallest int32, and a message of 256 bytes at debug
    level 4. -/
theorem arrays_overrun :
    let st : Received := ⟨List.replicate instrMaxLen 0, 0, false⟩
    let smallest : List Byte := [0, 8, 0xF0, 0, 0x80, 0, 0, 0]
    ipcSendReceive (fun _ => 0) 64 (List.replicate 257 0) st = .error .outOfBounds ∧
      ipcWaitReceive (fun _ => 0) 64 (List.replicate 257 0) st = .error .outOfBounds ∧
      ipcSendReceive (fun _ => 0) 64 smallest st = .error .outOfBounds ∧
      ipcWaitReceive (fun _ => 0) 64 smallest st = .error .outOfBounds ∧
      ¬ ∃ sent, ipcSendWrapper (fun _ => 0) true [setParamAsBlob 5 252] = .ok sent := by
  refine ⟨?_, ?_, ?_, ?_, ?_⟩
  · decide +kernel
  · decide +kernel
  · decide +kernel
  · decide +kernel
  · intro hsent
    have hsize := (wrapper_ok_iff (fun _ => 0) true
      [⟨setParamAsBlob 5 252, .inr ⟨by decide, fun _ => by decide⟩⟩]).mp hsent rfl
    exact hsize (by decide)

end AfIpc.Tools
