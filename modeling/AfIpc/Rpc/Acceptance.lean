/-
  AfIpc.Rpc.Acceptance

  What `af_rpc_get_params_from_buffer` accepts in permissive mode, against the
  grammar.  The loop follows the chain of TLVs of the message body
  (`getParams_chain`); how the chain ends decides the result.  Two ends are
  accepted that the grammar does not have: a prefix below its own size in a
  buffer of two bytes, and bytes behind the last TLV there is room for.
-/

import AfIpc.Rpc.DecoderSpec

namespace AfIpc.Rpc

open AfIpc.Lib

/-- The bytes of a buffer that the prefix says are TLVs. -/
def messageBody (buf : List Byte) : List Byte := (buf.take (lengthPrefix buf)).drop 2

theorem messageBody_eq {buf : List Byte} (h : lengthPrefix buf = buf.length) :
    messageBody buf = buf.drop 2 := by
  rw [messageBody, h, List.take_length]

/-- What lies behind the prefix of a message and of its buffer. -/
theorem drop_eq_messageBody (buf : List Byte) :
    ∃ tail, buf.drop 2 = messageBody buf ++ tail := by
  refine ⟨(buf.drop 2).drop (lengthPrefix buf - 2), ?_⟩
  rw [messageBody, List.drop_take, List.take_append_drop]

/-- A chain that starts in the message has no more items than one that may go on
    behind it. -/
theorem length_items_messageBody_le (buf : List Byte) :
    (tlvs.items (messageBody buf)).length ≤ (tlvs.items (buf.drop 2)).length := by
  obtain ⟨tail, htail⟩ := drop_eq_messageBody buf
  have hitems : tlvs.items (buf.drop 2) =
      tlvs.items (messageBody buf) ++ tlvs.items (tlvs.leftover (messageBody buf) ++ tail) := by
    conv_lhs => rw [htail, tlvs_canonical.eq_append (messageBody buf), List.append_assoc]
    exact tlvs_encodes.items_append (fun _ _ => trivial) _
  rw [hitems, List.length_append]
  exact Nat.le_add_right _ _

/-- The size of a message body, by its chain of TLVs. -/
theorem messageSize_items {buf : List Byte} (h2 : 2 ≤ lengthPrefix buf)
    (hle : lengthPrefix buf ≤ buf.length) :
    messageSize (tlvs.items (messageBody buf)) + (tlvs.leftover (messageBody buf)).length
      = lengthPrefix buf := by
  have hlen := tlvs.length_eq (messageBody buf)
  have hbody : (messageBody buf).length = lengthPrefix buf - 2 := by
    rw [messageBody, List.length_drop, List.length_take]
    omega
  have hsize : messageSize (tlvs.items (messageBody buf))
      = 2 + ((tlvs.items (messageBody buf)).map tlvs.size).sum := rfl
  omega

section Chain

variable (addr : Word) (params : List AfRpcParam) (numParams : Int) (buf : List Byte)

/-- The decoder along the chain of TLVs of a message: it counts a chain that
    covers the message, returns 0 where the array is full before the end, and
    fails where the chain stops. -/
theorem getParams_chain (h2 : 2 ≤ lengthPrefix buf) (hle : lengthPrefix buf ≤ buf.length)
    (hnum : 0 ≤ numParams) (hroom : numParams ≤ params.length) :
    ∃ ret out, afRpcGetParamsFromBuffer params numParams addr buf buf.length true =
        .ok (ret, out) ∧
      ((tlvs.items (messageBody buf)).length < numParams →
        tlvs.leftover (messageBody buf) ≠ [] → ret < 0) ∧
      (numParams ≤ (tlvs.items (messageBody buf)).length →
        (numParams < (tlvs.items (messageBody buf)).length ∨
          tlvs.leftover (messageBody buf) ≠ []) → ret = 0) ∧
      ((tlvs.items (messageBody buf)).length ≤ numParams →
        tlvs.leftover (messageBody buf) = [] →
        (ret, out) = getParamsEnd numParams buf.length true
          (storeParams addr params 0 2 (tlvs.items (messageBody buf)))
          (tlvs.items (messageBody buf)).length (lengthPrefix buf)) := by
  have h2' : 2 ≤ buf.length := by omega
  obtain ⟨len, hlen, hlenp⟩ := getlen_lengthPrefix h2'
  obtain ⟨tail, htail⟩ := drop_eq_messageBody buf
  have hsize := messageSize_items h2 hle
  have hchain := tlvs_canonical.eq_append (messageBody buf)
  have hstop := tlvs.head_leftover (messageBody buf)
  have hrest : messageBody buf = (buf.take len.toNat).drop 2 := by rw [hlenp]; rfl
  generalize tlvs.items (messageBody buf) = ts at *
  generalize tlvs.leftover (messageBody buf) = ys at *
  rw [hchain] at htail hrest
  rw [List.append_assoc] at htail
  have hmatch : ∀ (ts : List Tlv), (ts.length : Int) ≤ numParams → ∀ i (hi : i < ts.length),
      ∃ entry, params[i]? = some entry ∧ (true = true ∨ TypeMatches entry.type ts[i].type) := by
    intro ts hts i hi
    have hin : i < params.length := by omega
    exact ⟨params[i], List.getElem?_eq_getElem hin, .inl rfl⟩
  by_cases hfull : numParams ≤ ts.length ∧ (numParams < ts.length ∨ ys ≠ [])
  · -- the array is full before the end of the message
    obtain ⟨k, rfl⟩ := Int.eq_ofNat_of_zero_le hnum
    have hsplit : ts = ts.take k ++ ts.drop k := (List.take_append_drop k ts).symm
    have hk : (ts.take k).length = k := by rw [List.length_take]; omega
    have hbuf : buf.drop 2 =
        (ts.take k).flatMap Tlv.encode ++ ((ts.drop k).flatMap Tlv.encode ++ (ys ++ tail)) := by
      rw [htail, ← List.append_assoc ((ts.take k).flatMap Tlv.encode), ← List.flatMap_append,
        ← hsplit]
    have hshort : messageSize (ts.take k) < len.toNat := by
      have hsum : messageSize ts = messageSize (ts.take k) + ((ts.drop k).map Tlv.size).sum := by
        rw [messageSize, messageSize, Nat.add_assoc, ← List.sum_append, ← List.map_append,
          ← hsplit]
      rcases hfull.2 with hmore | hys
      · have hne : ts.drop k ≠ [] := by
          intro hnil
          have := congrArg List.length hnil
          rw [List.length_drop, List.length_nil] at this
          omega
        obtain ⟨t, rest, hcons⟩ := List.exists_cons_of_ne_nil hne
        rw [hcons, List.map_cons, List.sum_cons, Tlv.size] at hsum
        omega
      · have hpos := List.length_pos_iff.mpr hys
        omega
    obtain ⟨out, hret⟩ := getParams_full addr params k buf true hbuf hlen (by omega) hshort
      (by rw [hk]) (hmatch _ (by rw [hk]))
    refine ⟨0, out, hret, fun h => absurd h (by omega), fun _ _ => rfl, fun h hnil => ?_⟩
    rcases hfull.2 with hmore | hys
    · omega
    · exact absurd hnil hys
  · by_cases hnil : ys = []
    · -- the chain covers the message
      have hcount : (ts.length : Int) ≤ numParams := by
        by_contra hgt
        exact hfull ⟨by omega, .inl (by omega)⟩
      have hwhole := getParams_whole addr params numParams buf true htail hlen (by omega)
        (by rw [hnil, List.length_nil] at hsize; omega) hcount (hmatch ts hcount)
      rw [hlenp] at hwhole
      exact ⟨_, _, hwhole, fun _ hne => absurd hnil hne, fun h hor => absurd ⟨h, hor⟩ hfull,
        fun _ _ => rfl⟩
    · -- the chain stops at bytes that are no TLV
      have hcount : (ts.length : Int) < numParams := by
        by_contra hge
        exact hfull ⟨by omega, .inr hnil⟩
      have hpos := List.length_pos_iff.mpr hnil
      have hbad : Tlv.head ((buf.take len.toNat).drop (messageSize ts)) = none := by
        have hdrop : (buf.take len.toNat).drop (messageSize ts) = ys := by
          have hflat := flatMap_encode_length ts
          rw [messageSize, ← List.drop_drop, lengthSize, ← hrest, ← hflat, List.drop_left]
        rw [hdrop]
        exact hstop
      obtain ⟨code, out, hret, hneg⟩ := getParams_stuck addr params numParams buf true htail
        hlen (by omega) (by omega) hcount (by omega) (hmatch ts (by omega)) hbad
      exact ⟨code, out, hret, fun _ _ => hneg, fun h _ => absurd h (by omega),
        fun _ h => absurd h hnil⟩

end Chain

-- ============================================================================
-- The grammar
-- ============================================================================

/-- The permissive decoder accepts the messages of the grammar and counts their
    TLVs, and returns a negative error for everything else. -/
def AcceptsGrammar (params : List AfRpcParam) (numParams : Int) (addr : Word)
    (buf : List Byte) : Prop :=
  ∃ ret out, afRpcGetParamsFromBuffer params numParams addr buf buf.length true =
      .ok (ret, out) ∧
    (∀ n : Nat, ret = n ↔ IsMessageOf buf n) ∧
    ((∀ n, ¬ IsMessageOf buf n) → ret < 0)

section Grammar

variable {params : List AfRpcParam} {numParams ret : Int} {addr : Word} {buf : List Byte}
  {out : List AfRpcParam}
  (hret : afRpcGetParamsFromBuffer params numParams addr buf buf.length true = .ok (ret, out))

include hret

theorem acceptsGrammar_of_error (hneg : ret < 0) (hno : ∀ n, ¬ IsMessageOf buf n) :
    AcceptsGrammar params numParams addr buf :=
  ⟨ret, out, hret, fun n => ⟨fun h => by omega, fun h => absurd h (hno n)⟩, fun _ => hneg⟩

theorem not_acceptsGrammar_of_zero (hzero : ret = 0) (hno : ∀ n, ¬ IsMessageOf buf n) :
    ¬ AcceptsGrammar params numParams addr buf := by
  rintro ⟨ret', out', hret', hiff, _⟩
  rw [hret, Except.ok.injEq, Prod.mk.injEq] at hret'
  obtain ⟨rfl, rfl⟩ := hret'
  exact hno 0 ((hiff 0).mp hzero)

end Grammar

/-- **What the batch decoder accepts.**  With room for the TLVs of a buffer of at
    least two bytes, the permissive decoder accepts exactly the grammar unless the
    buffer has two bytes and a prefix below two, or the prefix lies in the buffer
    and the message has more bytes behind its chain of exactly `numParams` TLVs. -/
theorem acceptsGrammar_iff (params : List AfRpcParam) (numParams : Int) (addr : Word)
    (buf : List Byte) (h2 : 2 ≤ buf.length)
    (hnum : ((tlvs.items (buf.drop 2)).length : Int) ≤ numParams)
    (hroom : numParams ≤ params.length) :
    AcceptsGrammar params numParams addr buf ↔
      ¬ (buf.length = 2 ∧ lengthPrefix buf < 2) ∧
      ¬ (lengthPrefix buf ≤ buf.length ∧
        (tlvs.items (messageBody buf)).length = numParams ∧
        tlvs.leftover (messageBody buf) ≠ []) := by
  obtain ⟨len, hlen, hlenp⟩ := getlen_lengthPrefix h2
  have hno : lengthPrefix buf ≠ buf.length → ∀ n, ¬ IsMessageOf buf n :=
    fun hne n hmsg => hne hmsg.1
  by_cases hlong : buf.length < lengthPrefix buf
  · -- beyond the buffer
    have hret := getParams_long addr params numParams buf true h2 (by omega) hlen (by omega)
    have hacc := acceptsGrammar_of_error hret (by decide) (hno (by omega))
    exact ⟨fun _ => ⟨fun h => by omega, fun h => by omega⟩, fun _ => hacc⟩
  · by_cases hshort : lengthPrefix buf < 2
    · -- below the prefix itself: the final checks see a position of 2
      have hret := getParams_short addr params numParams buf true h2 (by omega) hlen (by omega)
      have hnil : messageBody buf = [] := by
        rw [messageBody, List.drop_eq_nil_iff, List.length_take]
        omega
      by_cases htwo : buf.length = 2
      · have hrej : ¬ AcceptsGrammar params numParams addr buf := by
          rw [getParamsEnd, if_neg (by simp), if_neg (by omega)] at hret
          exact not_acceptsGrammar_of_zero hret rfl (hno (by omega))
        exact ⟨fun h => absurd h hrej, fun h => absurd ⟨htwo, hshort⟩ h.1⟩
      · have hacc : AcceptsGrammar params numParams addr buf := by
          rw [getParamsEnd, if_neg (by simp), if_pos (by omega)] at hret
          exact acceptsGrammar_of_error hret (by decide) (hno (by omega))
        refine ⟨fun _ => ⟨fun h => htwo h.1, fun h => h.2.2 ?_⟩, fun _ => hacc⟩
        rw [hnil, Splitter.leftover_nil]
    · obtain ⟨ret, out, hret, hstuck, hfull, hend⟩ :=
        getParams_chain addr params numParams buf (by omega) (by omega) (by omega) hroom
      have hitems := length_items_messageBody_le buf
      by_cases hleft : tlvs.leftover (messageBody buf) = []
      · -- the chain covers the message, which may be shorter than the buffer
        have hwhole := hend (by omega) hleft
        have hacc : AcceptsGrammar params numParams addr buf := by
          by_cases hall : lengthPrefix buf = buf.length
          · rw [getParamsEnd, if_neg (by simp), if_neg (by omega), Prod.mk.injEq] at hwhole
            obtain ⟨rfl, rfl⟩ := hwhole
            rw [messageBody_eq hall] at hleft hret
            have hmsg : IsMessageOf buf (tlvs.items (buf.drop 2)).length :=
              isMessageOf_iff.mpr ⟨hall, rfl, hleft⟩
            refine ⟨_, _, hret, fun n => ?_, fun h => absurd hmsg (h _)⟩
            rw [isMessageOf_iff]
            exact ⟨fun h => ⟨hall, by omega, hleft⟩, fun h => by rw [h.2.1]⟩
          · rw [getParamsEnd, if_neg (by simp), if_pos (by omega), Prod.mk.injEq] at hwhole
            obtain ⟨rfl, rfl⟩ := hwhole
            exact acceptsGrammar_of_error hret (by decide) (hno hall)
        exact ⟨fun _ => ⟨fun h => hshort h.2, fun h => h.2.2 hleft⟩, fun _ => hacc⟩
      · have hnomsg : ∀ n, ¬ IsMessageOf buf n := by
          intro n hmsg
          obtain ⟨hall, _, hnil⟩ := isMessageOf_iff.mp hmsg
          rw [messageBody_eq hall] at hleft
          exact hleft hnil
        by_cases heq : (tlvs.items (messageBody buf)).length = numParams
        · -- no room for what the leftover might have been
          have hrej := not_acceptsGrammar_of_zero hret (hfull (by omega) (.inr hleft)) hnomsg
          exact ⟨fun h => absurd h hrej, fun h => absurd ⟨by omega, heq, hleft⟩ h.2⟩
        · have hacc := acceptsGrammar_of_error hret (hstuck (by omega) hleft) hnomsg
          exact ⟨fun _ => ⟨fun h => hshort h.2, fun h => heq h.2.1⟩, fun _ => hacc⟩

/-- An integer TLV in a message of its own. -/
theorem acceptsGrammar_iff_uint8 :
    AcceptsGrammar [⟨0, 0⟩] 1 0 [0, 5, 0x90, 0, 7] ↔
      ¬ ((5 : Nat) = 2 ∧ lengthPrefix [0, 5, 0x90, 0, 7] < 2) ∧
      ¬ (lengthPrefix [0, 5, 0x90, 0, 7] ≤ 5 ∧
        ((tlvs.items (messageBody [0, 5, 0x90, 0, 7])).length : Int) = 1 ∧
        tlvs.leftover (messageBody [0, 5, 0x90, 0, 7]) ≠ []) := by
  have hgood : ∀ t ∈ [(⟨typeUint8, [7], rfl⟩ : Tlv)], True := fun _ _ => trivial
  have hitems : tlvs.items (([0, 5, 0x90, 0, 7] : List Byte).drop 2) =
      [⟨typeUint8, [7], rfl⟩] := tlvs_encodes.items_flatMap hgood
  exact acceptsGrammar_iff [⟨0, 0⟩] 1 0 [0, 5, 0x90, 0, 7] (by decide)
    (by rw [hitems]; decide) (by decide)

/-- Zero is returned for a prefix of zero, and for a message with a byte too many
    behind as many TLVs as there is room for. -/
theorem not_acceptsGrammar_short :
    (((tlvs.items (([0, 0] : List Byte).drop 2)).length : Int) ≤ 1 ∧
      ¬ AcceptsGrammar [⟨0, 0⟩] 1 0 [0, 0]) ∧
    ¬ AcceptsGrammar [⟨0, 0⟩] 1 0 [0, 6, 0x90, 0, 7, 1] := by
  refine ⟨⟨by simp, ?_⟩, ?_⟩
  · have hret : afRpcGetParamsFromBuffer [⟨0, 0⟩] 1 0 [0, 0] 2 true = .ok (0, [⟨0, 0⟩]) := by
      rfl
    exact not_acceptsGrammar_of_zero hret rfl (fun n h => absurd h.1 (by decide))
  · have hret : afRpcGetParamsFromBuffer [⟨0, 0⟩] 1 0 [0, 6, 0x90, 0, 7, 1] 6 true =
        .ok (0, [⟨7, 0x9000⟩]) := by
      rfl
    refine not_acceptsGrammar_of_zero hret rfl (fun n h => ?_)
    obtain ⟨_, hn, hleft⟩ := isMessageOf_iff.mp h
    have hgood : ∀ t ∈ [(⟨typeUint8, [7], rfl⟩ : Tlv)], True := fun _ _ => trivial
    have hfirst : tlvs.leftover (([0, 6, 0x90, 0, 7, 1] : List Byte).drop 2) =
        tlvs.leftover [1] := tlvs_encodes.leftover_append hgood [1]
    have hlast : tlvs.head [1] = none := by rfl
    rw [hfirst, tlvs.leftover_of_none hlast] at hleft
    cases hleft

end AfIpc.Rpc
