/-
  AfIpc.Tools.Printable

  Which replies are printed.  The message is the encoding of its TLVs, at the
  start of `outBuffer`; `Printable` is the condition on the TLVs under which the
  two programs print their texts.
-/

import AfIpc.Rpc.DecoderBounds
import AfIpc.Tools.Rendering

namespace AfIpc.Tools

open AfIpc.Lib AfIpc.Rpc

-- ============================================================================
-- The condition
-- ============================================================================

/-- `AF_RPC_BLOB_IS_STRING`, of a parameter that is no integer. -/
def isString (t : Tlv) : Bool := typeIsBlob t.type && t.type &&& typeFlagBlobIsString != 0

/-- The replies that are printed as they are. -/
structure Printable (ts : List Tlv) : Prop where
  /-- Only the first parameter is an integer: its text goes to the start of the string. -/
  first : ∀ t ∈ ts.tail, typeIsBlob t.type = true
  /-- Only the last parameter is a string: the loop ends with it. -/
  last : ∀ t ∈ ts.dropLast, isString t = false
  /-- There is room for the integer and its NUL in `tmp`. -/
  short : ∀ t ∈ ts, ∀ k : IntKind, t.type = k.type → -10 ^ 9 < numberOf t k
  /-- The text fits, with one more byte if there is a string in it. -/
  fits : (replyText ts).length + (if ts.any isString then 1 else 0) < retStringSize - 1

-- ============================================================================
-- The pieces of a message
-- ============================================================================

theorem pieceOf_int {t : Tlv} {k : IntKind} (h : t.type = k.type) :
    pieceOf t = .int (decimalInt (numberOf t k)) := by
  rw [pieceOf, h, IntKind.ofType_type]

theorem pieceOf_blob {t : Tlv} (h : typeIsBlob t.type = true) :
    pieceOf t = if isString t then .string t.payload else .blob t.payload := by
  rw [pieceOf, ofType_of_isBlob h, isString, h, Bool.true_and]
  by_cases hflag : t.type &&& typeFlagBlobIsString ≠ 0
  · rw [if_pos (bne_iff_ne.mpr hflag)]
    exact if_pos hflag
  · rw [if_neg (fun hc => hflag (bne_iff_ne.mp hc))]
    exact if_neg hflag

theorem isInt_pieceOf (t : Tlv) : (pieceOf t).isInt = false ↔ typeIsBlob t.type = true := by
  rcases payloadSize_eq_some t.wf with ⟨k, hk, _⟩ | ⟨hblob, _⟩
  · rw [pieceOf_int hk, hk]
    refine iff_of_false ?_ (not_isBlob_type k)
    exact fun h => by cases h
  · rw [pieceOf_blob hblob]
    refine ⟨?_, ?_⟩
    · exact fun _ => hblob
    · intro _
      split_ifs <;> rfl

theorem isString_pieceOf (t : Tlv) : (pieceOf t).isString = isString t := by
  rcases payloadSize_eq_some t.wf with ⟨k, hk, _⟩ | ⟨hblob, _⟩
  · have hfalse := Bool.not_eq_true _ ▸ not_isBlob_type k
    rw [pieceOf_int hk, isString, hk, hfalse, Bool.false_and]
    rfl
  · rw [pieceOf_blob hblob]
    by_cases hstring : isString t = true
    · rw [if_pos hstring, hstring]
      rfl
    · rw [if_neg hstring]
      exact (Bool.not_eq_true _ ▸ hstring).symm

/-- The texts of integers have no NUL in them, and strings end in their only one. -/
theorem proper_pieceOf {t : Tlv}
    (hstring : isString t = true → ∃ s : CString, t.payload = s.bytes ++ [0]) :
    (pieceOf t).Proper := by
  rcases payloadSize_eq_some t.wf with ⟨k, hk, _⟩ | ⟨hblob, _⟩
  · rw [pieceOf_int hk]
    exact decimalInt_noNul _
  · rw [pieceOf_blob hblob]
    by_cases his : isString t = true
    · obtain ⟨s, hs⟩ := hstring his
      rw [if_pos his]
      exact ⟨s.bytes, hs, s.noNul⟩
    · rw [if_neg his]
      trivial

theorem slack_map_pieceOf (ts : List Tlv) :
    slack (ts.map pieceOf) = if ts.any isString then 1 else 0 := by
  have hsame : (Piece.isString ∘ pieceOf) = isString := funext isString_pieceOf
  rw [slack, List.any_map, hsame]

/-- A number of 32 bits has at most ten digits. -/
theorem numberOf_lt (t : Tlv) (k : IntKind) : numberOf t k < 10 ^ 10 := by
  have hwidth : (2 : Nat) ^ (8 * k.width) ≤ 2 ^ 32 := by
    cases k <;> exact Nat.pow_le_pow_right (by omega) (by simp only [IntKind.width]; omega)
  have hlt := (BitVec.ofNat (8 * k.width) (ofBe t.payload)).isLt
  have hle : numberOf t k ≤ ((BitVec.ofNat (8 * k.width) (ofBe t.payload)).toNat : Int) := by
    rw [numberOf, IntKind.value]
    split_ifs
    · rw [BitVec.toInt_eq_toNat_cond]
      split_ifs <;> omega
    · exact Int.le_refl _
  omega

/-- The text of an integer fits in `tmp` unless it has a sign and ten digits. -/
theorem text_short_iff (t : Tlv) (k : IntKind) :
    (decimalInt (numberOf t k)).length + 1 ≤ tmpSize ↔ -10 ^ 9 < numberOf t k := by
  have hiff := decimalInt_length_le_iff (z := numberOf t k) (k := 10) (by omega)
  have hlt := numberOf_lt t k
  rw [tmpSize]
  refine ⟨?_, ?_⟩
  · intro h
    exact (hiff.mp (by omega)).1
  · intro h
    have hlen := hiff.mpr ⟨h, hlt⟩
    omega

/-- The condition is the one on the pieces. -/
theorem printable_iff_fine {ts : List Tlv}
    (hstrings : ∀ t ∈ ts, isString t = true → ∃ s : CString, t.payload = s.bytes ++ [0]) :
    Printable ts ↔ Fine true 0 (ts.map pieceOf) := by
  have hproper : ∀ p ∈ ts.map pieceOf, p.Proper := by
    intro p hp
    obtain ⟨t, ht, rfl⟩ := List.mem_map.mp hp
    exact proper_pieceOf (hstrings t ht)
  rw [fine_true_iff hproper, ← List.map_tail, ← List.map_dropLast, slack_map_pieceOf,
    ← replyText_eq, List.forall_mem_map, List.forall_mem_map]
  simp only [isInt_pieceOf, isString_pieceOf]
  refine ⟨?_, ?_⟩
  · intro h
    refine ⟨h.first, h.last, ?_, h.fits⟩
    intro p hp text htext
    cases ts with
    | nil => cases hp
    | cons t ts =>
        obtain rfl := Option.mem_some.mp hp
        rcases payloadSize_eq_some t.wf with ⟨k, hk, _⟩ | ⟨hblob, _⟩
        · rw [pieceOf_int hk] at htext
          rw [← Piece.int.inj htext]
          exact (text_short_iff t k).mpr (h.short t List.mem_cons_self k hk)
        · have hint := (isInt_pieceOf t).mpr hblob
          rw [htext] at hint
          cases hint
  · rintro ⟨hfirst, hlast, hshort, hfits⟩
    refine ⟨hfirst, hlast, ?_, hfits⟩
    intro t ht k hk
    cases ts with
    | nil => cases ht
    | cons t' ts =>
        rcases List.mem_cons.mp ht with rfl | ht
        · exact (text_short_iff t k).mp (hshort _ rfl _ (pieceOf_int hk))
        · have hblob := hfirst t ht
          rw [hk] at hblob
          exact absurd hblob (not_isBlob_type k)

-- ============================================================================
-- The reply
-- ============================================================================

section Reply

variable {mem : Mem} {addr : Word} {ts : List Tlv} {rest : List Byte}

/-- The message at the start of `outBuffer` is decoded into the array. -/
theorem renderReply_eq (h16 : ts.length ≤ maxParams) (hpfx : messageSize ts < 2 ^ 16) :
    renderReply mem addr (encodeMessage ts ++ rest) (messageSize ts) =
      (renderLoop mem (decodedParams addr 2 ts) 0 0 (List.replicate retStringSize 0)).map
        (fun retString => retString.map printed) := by
  have hentries : (List.replicate maxParams (⟨0, 0⟩ : AfRpcParam)).length = maxParams :=
    List.length_replicate
  obtain ⟨decoded, hdec, htake⟩ := @getParams_message addr (List.replicate maxParams ⟨0, 0⟩) ts
    (by rw [hentries]; exact h16) hpfx
  have hleft := getParams_left (List.replicate maxParams ⟨0, 0⟩) maxParams addr (encodeMessage ts)
    rest true
  rw [hentries] at hdec
  rw [encodeMessage_length, hdec] at hleft
  simp only [renderReply, hleft, bind, Except.bind]
  rw [if_neg (by omega), Int.toNat_natCast, htake]
  cases renderLoop mem (decodedParams addr 2 ts) 0 0 (List.replicate retStringSize 0) with
  | error e => rfl
  | ok retString => rfl

/-- A reply is printed as it is exactly if its parameters are `Printable`. -/
theorem renderReply_iff (h16 : ts.length ≤ maxParams) (hpfx : messageSize ts < 2 ^ 16)
    (hmem : readMem mem addr (messageSize ts) = encodeMessage ts)
    (hstrings : ∀ t ∈ ts, isString t = true → ∃ s : CString, t.payload = s.bytes ++ [0]) :
    renderReply mem addr (encodeMessage ts ++ rest) (messageSize ts) = .ok (some (replyText ts)) ↔
      Printable ts := by
  have hsplit : encodeMessage ts = toBe 2 (messageSize ts) ++ ts.flatMap Tlv.encode := rfl
  rw [← encodeMessage_length, hsplit] at hmem
  have hshows := shows_decodedParams ts _ hmem
  rw [toBe_length] at hshows
  have hproper : ∀ p ∈ ts.map pieceOf, p.Proper := by
    intro p hp
    obtain ⟨t, ht, rfl⟩ := List.mem_map.mp hp
    exact proper_pieceOf (hstrings t ht)
  have hprints : Prints (renderLoop mem (decodedParams addr 2 ts) 0 0
      (List.replicate retStringSize 0)) (joined true (ts.map pieceOf)) ↔
        Fine true 0 (ts.map pieceOf) :=
    render_iff hshows hproper (by simp) (by decide) (fun _ => rfl)
  rw [printable_iff_fine hstrings, ← hprints, ← replyText_eq, renderReply_eq h16 hpfx]
  cases renderLoop mem (decodedParams addr 2 ts) 0 0 (List.replicate retStringSize 0) with
  | error e => exact ⟨fun h => (by cases h), fun h => absurd h not_prints_error⟩
  | ok out =>
      cases out with
      | none => exact ⟨fun h => (by cases h), fun h => absurd h not_prints_none⟩
      | some out =>
          rw [prints_ok]
          refine ⟨?_, ?_⟩
          · intro h
            exact Option.some.inj (Except.ok.inj h)
          · intro h
            exact congrArg (fun text => Except.ok (some text)) h

/-- **Both programs print a reply** of at most 16 parameters, whose strings end in
    their only NUL, exactly if it is `Printable`. -/
theorem reply_printed_iff (mem : Mem) (addr : Word) (ts : List Tlv) (rest : List Byte)
    (h16 : ts.length ≤ maxParams) (hpfx : messageSize ts < 2 ^ 16)
    (hmem : readMem mem addr (messageSize ts) = encodeMessage ts)
    (hstrings : ∀ t ∈ ts, isString t = true → ∃ s : CString, t.payload = s.bytes ++ [0]) :
    (ipcSendReply mem addr (encodeMessage ts ++ rest) (messageSize ts) =
        .ok (some (replyText ts)) ↔ Printable ts) ∧
      (ipcWaitReply mem addr (encodeMessage ts ++ rest) (messageSize ts) =
        .ok (some (replyText ts)) ↔ Printable ts) :=
  ⟨renderReply_iff h16 hpfx hmem hstrings, renderReply_iff h16 hpfx hmem hstrings⟩

end Reply

/-- The reply -5, a blob and a string is printed. -/
theorem reply_printed_iff_mixed :
    let ts : List Tlv :=
      [⟨0xD000, [0xFB], by decide⟩, ⟨1, [0xAB], by decide⟩, ⟨0x4003, [104, 105, 0], by decide⟩]
    let mem : Mem := fun a => (encodeMessage ts).getD (a.toNat - 64) 0
    (ipcSendReply mem 64 (encodeMessage ts ++ List.replicate 243 0) (messageSize ts) =
        .ok (some (replyText ts)) ↔ Printable ts) ∧
      (ipcWaitReply mem 64 (encodeMessage ts ++ List.replicate 243 0) (messageSize ts) =
        .ok (some (replyText ts)) ↔ Printable ts) := by
  intro ts mem
  refine reply_printed_iff mem 64 ts (List.replicate 243 0) (by decide) (by decide) (by decide) ?_
  intro t ht hstring
  rcases List.mem_cons.mp ht with rfl | ht
  · cases hstring
  · rcases List.mem_cons.mp ht with rfl | ht
    · cases hstring
    · obtain rfl := List.mem_singleton.mp ht
      exact ⟨⟨[104, 105], by decide⟩, rfl⟩

/-- Of the reply 5 7 only the 7 is printed. -/
theorem reply_overwritten :
    let ts : List Tlv := [⟨0x9000, [5], by decide⟩, ⟨0x9000, [7], by decide⟩]
    replyText ts = [53, 32, 55] ∧
      ipcSendReply (fun _ => 0) 64 (encodeMessage ts ++ List.replicate 248 0) (messageSize ts) =
        .ok (some [55]) ∧
      ipcWaitReply (fun _ => 0) 64 (encodeMessage ts ++ List.replicate 248 0) (messageSize ts) =
        .ok (some [55]) := by
  refine ⟨?_, ?_, ?_⟩ <;> decide +kernel

end AfIpc.Tools
