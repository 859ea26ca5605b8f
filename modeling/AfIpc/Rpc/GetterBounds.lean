/-
  AfIpc.Rpc.GetterBounds

  Where the seven getters read.  A load outside the list of bytes is a trap, so a
  call that returns has read inside the buffer; and a call that returns the same
  on the bytes of the message alone has read inside the message.  Two checks fall
  short of this: the blob getter reads a type field without asking whether two
  bytes are left for it, and a negative position passes the checks where a sum
  with it wraps, or, in the blob getter, always.
-/

import AfIpc.Lib.Run
import AfIpc.Rpc.GetterWalk

namespace AfIpc.Rpc

open AfIpc.Lib

-- ============================================================================
-- The seven getters
-- ============================================================================

/-- A getter; the one for blobs is called with `*blobSize = room`. -/
inductive Getter where
  | int (k : IntKind)
  | blob (room : Int)

/-- What a call returns, and what it stores if it stores anything.  `*blobSize`
    becomes the number of bytes of a blob that is stored. -/
def Getter.call (g : Getter) (buf : List Byte) (bufSize pos : Int) :
    Except Trap (Int × Option Value) :=
  match g with
  | .int k => do
    let (ret, value) ← getIntOfKind k buf bufSize pos
    return (ret, value.map (.int k))
  | .blob room => do
    let (ret, bytes) ← afRpcGetBlobWithLengthFromBufferAtPos room buf bufSize pos
    return (ret, bytes.map .blob)

/-- The position a getter reads from. -/
def startAt (pos : Int) : Int := if pos = 0 then lengthSize else pos

/-- The bytes of the message, and its prefix. -/
def messageBytes (buf : List Byte) : List Byte := buf.take (max 2 (lengthPrefix buf))

/-- The call reads inside the buffer, and behind the prefix inside the message;
    where it succeeds it goes forward inside the message, where it fails it stores
    nothing. -/
def StaysInside (g : Getter) (buf : List Byte) (pos : Int) : Prop :=
  ∃ ret value, g.call buf buf.length pos = .ok (ret, value) ∧
    g.call (messageBytes buf) buf.length pos = .ok (ret, value) ∧
    (0 ≤ ret → startAt pos < ret ∧ ret ≤ lengthPrefix buf) ∧ (ret < 0 → value = none)

section Loads

variable {buf : List Byte} {k : Nat}

theorem loadAt_take {pos : Int} {n : Nat} (h0 : 0 ≤ pos) (h : pos + n ≤ k) (hk : k ≤ buf.length) :
    loadAt (buf.take k) pos n = loadAt buf pos n := by
  rw [loadAt, loadAt, if_neg (by omega), if_neg (by omega)]
  exact load_take (by omega) hk

theorem loadAt_ok {pos : Int} {n : Nat} (h0 : 0 ≤ pos) (h : pos + n ≤ buf.length) :
    ∃ bs, loadAt buf pos n = .ok bs := by
  rw [loadAt, if_neg (by omega)]
  exact ⟨_, load_eq_ok_iff.mpr ⟨by omega, rfl⟩⟩

theorem getlenAt_take {pos : Int} (h0 : 0 ≤ pos) (h : pos + 2 ≤ k) (hk : k ≤ buf.length) :
    getlenAt (buf.take k) pos = getlenAt buf pos := by
  rw [getlenAt, getlenAt, loadAt_take h0 (by omega) hk]

theorem getlenAt_ok {pos : Int} (h0 : 0 ≤ pos) (h : pos + 2 ≤ buf.length) :
    ∃ type, getlenAt buf pos = .ok type := by
  obtain ⟨bs, hbs⟩ := @loadAt_ok buf pos 2 h0 (by omega)
  rw [getlenAt, hbs]
  exact ⟨_, rfl⟩

theorem getlen_take (h : 2 ≤ k) (hk : k ≤ buf.length) : getlen (buf.take k) 0 = getlen buf 0 := by
  rw [getlen, getlen, load_take (by omega) hk]

end Loads

-- ============================================================================
-- The checks
-- ============================================================================

section Checks

variable {mem : List Byte} {len : BitVec 16} {bufSize pos : Int}

/-- An integer getter behind its first check. -/
theorem getInt_eq (type : BitVec 16) (width : Nat) (hsize : ¬ sizeT bufSize ≤ lengthSize)
    (hlen : getlen mem 0 = .ok len) :
    getIntFromBufferAtPos type width mem bufSize pos =
      if (len.toNat : Int) > bufSize then .ok (errBadTlv, none)
      else if startAt pos > len.toNat then .ok (errBadParam, none)
      else if sizeT (startAt pos + typeSize + width) > len.toNat then .ok (errBadTlv, none)
      else do
        let found ← getlenAt mem (startAt pos)
        if found ≠ type then
          return (errBadType, none)
        let bs ← loadAt mem (startAt pos + typeSize) width
        return (startAt pos + typeSize + width, some (BitVec.ofNat (8 * width) (ofBe bs))) := by
  simp only [getIntFromBufferAtPos]
  rw [if_neg hsize, hlen]
  rfl

/-- The blob getter behind its first check. -/
theorem getBlob_eq {room : Int} (hsize : ¬ (sizeT bufSize ≤ lengthSize ∨ room ≤ 0))
    (hlen : getlen mem 0 = .ok len) :
    afRpcGetBlobWithLengthFromBufferAtPos room mem bufSize pos =
      if (len.toNat : Int) > bufSize then .ok (errBadTlv, none)
      else if startAt pos > len.toNat then .ok (errBadParam, none)
      else do
        let type ← getlenAt mem (startAt pos)
        if ¬ typeIsBlob type then
          return (errBadType, none)
        let size := (blobSize type).toNat
        if startAt pos + typeSize + size > len.toNat then
          return (errBadTlv, none)
        if (size : Int) > room then
          return (errBufferOverflow, none)
        let bs ← if size ≠ 0 then loadAt mem (startAt pos + typeSize) size else pure []
        return (startAt pos + typeSize + size, some bs) := by
  simp only [afRpcGetBlobWithLengthFromBufferAtPos]
  rw [if_neg hsize, hlen]
  rfl

end Checks

-- ============================================================================
-- Positions from 0 on
-- ============================================================================

section Inside

variable {buf : List Byte} {pos : Int}

theorem startAt_pos (hpos : 0 ≤ pos) : 0 < startAt pos ∧ pos ≤ startAt pos := by
  have htwo : ((lengthSize : Nat) : Int) = 2 := rfl
  unfold startAt
  split_ifs with h0
  · omega
  · omega

/-- The checks of a getter on a buffer that holds more than a prefix. -/
theorem size_large (hsmall : buf.length < 2 ^ 31) :
    ¬ sizeT buf.length ≤ lengthSize ↔ 2 < buf.length := by
  rw [sizeT_of_nonneg (by omega) (by omega), lengthSize]
  omega

theorem messageBytes_long (h : buf.length ≤ lengthPrefix buf) : messageBytes buf = buf :=
  List.take_of_length_le (by omega)

theorem width_le (k : IntKind) : k.width ≤ 4 := by
  cases k <;> decide

/-- The sum of the third check of an integer getter does not wrap. -/
theorem sizeT_end (k : IntKind) (hstart : 0 ≤ startAt pos) (hle : startAt pos ≤ lengthPrefix buf)
    (hsmall : buf.length < 2 ^ 31) (hstored : lengthPrefix buf ≤ buf.length) :
    ((sizeT (startAt pos + typeSize + k.width) : Nat) : Int) = startAt pos + 2 + k.width := by
  have hwidth := width_le k
  have htype : ((typeSize : Nat) : Int) = 2 := rfl
  rw [htype, sizeT_of_nonneg (by omega) (by omega)]
  omega

/-- An integer getter does not read behind the message. -/
theorem getInt_messageBytes (k : IntKind) (hsmall : buf.length < 2 ^ 31) (hpos : 0 ≤ pos) :
    getIntFromBufferAtPos k.type k.width (messageBytes buf) buf.length pos =
      getIntFromBufferAtPos k.type k.width buf buf.length pos := by
  obtain ⟨hstart, _⟩ := startAt_pos hpos
  by_cases hsize : sizeT buf.length ≤ lengthSize
  · simp only [getIntFromBufferAtPos]
    rw [if_pos hsize, if_pos hsize]
  have hlarge := (size_large hsmall).mp hsize
  rcases Nat.lt_or_ge buf.length (lengthPrefix buf) with hlong | hstored
  · rw [messageBytes_long (by omega)]
  have h2' : 2 ≤ buf.length := by omega
  obtain ⟨len, hlen, hlenp⟩ := getlen_lengthPrefix h2'
  have hlen' : getlen (messageBytes buf) 0 = .ok len := by
    rw [messageBytes, getlen_take (by omega) (by omega), hlen]
  rw [getInt_eq _ _ hsize hlen, getInt_eq _ _ hsize hlen', hlenp]
  split_ifs with hlong hbehind hover
  · rfl
  · rfl
  · rfl
  · -- both loads end inside the message
    have hend := @sizeT_end buf pos k (by omega) (by omega) hsmall hstored
    have htype : ((typeSize : Nat) : Int) = 2 := rfl
    rw [messageBytes, getlenAt_take (by omega) (by omega) (by omega),
      loadAt_take (by omega) (by omega) (by omega)]

/-- An integer getter reads inside the buffer, and goes forward inside the message. -/
theorem getInt_bounds (k : IntKind) (hsmall : buf.length < 2 ^ 31) (hpos : 0 ≤ pos) :
    ∃ ret value, getIntFromBufferAtPos k.type k.width buf buf.length pos = .ok (ret, value) ∧
      (0 ≤ ret → startAt pos < ret ∧ ret ≤ lengthPrefix buf) ∧ (ret < 0 → value = none) := by
  have herror : ∀ {e : Int}, e < 0 → (0 ≤ e → startAt pos < e ∧ e ≤ lengthPrefix buf) ∧
      (e < 0 → (none : Option (BitVec (8 * k.width))) = none) :=
    fun he => ⟨fun h => absurd h (by omega), fun _ => rfl⟩
  obtain ⟨hstart, _⟩ := startAt_pos hpos
  by_cases hsize : sizeT buf.length ≤ lengthSize
  · refine ⟨errBadParam, none, ?_, herror (by decide)⟩
    simp only [getIntFromBufferAtPos]
    rw [if_pos hsize]
    rfl
  have hlarge := (size_large hsmall).mp hsize
  have h2' : 2 ≤ buf.length := by omega
  obtain ⟨len, hlen, hlenp⟩ := getlen_lengthPrefix h2'
  rw [getInt_eq _ _ hsize hlen, hlenp]
  split_ifs with hlong hbehind hover
  · exact ⟨errBadTlv, none, rfl, herror (by decide)⟩
  · exact ⟨errBadParam, none, rfl, herror (by decide)⟩
  · exact ⟨errBadTlv, none, rfl, herror (by decide)⟩
  · have hend := @sizeT_end buf pos k (by omega) (by omega) hsmall (by omega)
    have htype : ((typeSize : Nat) : Int) = 2 := rfl
    obtain ⟨type, htypeAt⟩ := @getlenAt_ok buf (startAt pos) (by omega) (by omega)
    obtain ⟨bs, hbs⟩ := @loadAt_ok buf (startAt pos + typeSize) k.width (by omega)
      (by omega)
    simp only [htypeAt, hbs, bind, Except.bind]
    split_ifs with hbad
    · exact ⟨errBadType, none, rfl, herror (by decide)⟩
    · exact ⟨_, _, rfl, fun _ => by omega, fun hneg => absurd hneg (by omega)⟩

/-- The position leaves less than two bytes of the message, which the blob getter
    takes for a type field. -/
def ReadsBehind (g : Getter) (buf : List Byte) (pos : Int) : Prop :=
  ∃ room, g = .blob room ∧ 0 < room ∧ 2 < buf.length ∧ lengthPrefix buf ≤ buf.length ∧
    startAt pos ≤ lengthPrefix buf ∧ lengthPrefix buf < startAt pos + 2

theorem staysInside_int (k : IntKind) (hsmall : buf.length < 2 ^ 31) (hpos : 0 ≤ pos) :
    StaysInside (.int k) buf pos := by
  obtain ⟨ret, value, hret, hforward, hnone⟩ := getInt_bounds k hsmall hpos
  have hmessage := getInt_messageBytes k hsmall hpos
  refine ⟨ret, value.map (.int k), ?_, ?_, hforward, fun hneg => ?_⟩
  · simp only [Getter.call, getIntOfKind_eq, hret]
    rfl
  · simp only [Getter.call, getIntOfKind_eq, hmessage, hret]
    rfl
  · rw [hnone hneg]
    rfl

/-- The blob getter where a type field is left for it. -/
theorem getBlob_bounds (room : Int) (hsmall : buf.length < 2 ^ 31) (hpos : 0 ≤ pos)
    (hread : ¬ ReadsBehind (.blob room) buf pos) :
    ∃ ret bytes, afRpcGetBlobWithLengthFromBufferAtPos room buf buf.length pos = .ok (ret, bytes) ∧
      afRpcGetBlobWithLengthFromBufferAtPos room (messageBytes buf) buf.length pos =
        .ok (ret, bytes) ∧
      (0 ≤ ret → startAt pos < ret ∧ ret ≤ lengthPrefix buf) ∧ (ret < 0 → bytes = none) := by
  have herror : ∀ {e : Int}, e < 0 → (0 ≤ e → startAt pos < e ∧ e ≤ lengthPrefix buf) ∧
      (e < 0 → (none : Option (List Byte)) = none) :=
    fun he => ⟨fun h => absurd h (by omega), fun _ => rfl⟩
  obtain ⟨hstart, _⟩ := startAt_pos hpos
  have htype : ((typeSize : Nat) : Int) = 2 := rfl
  by_cases hsize : sizeT buf.length ≤ lengthSize ∨ room ≤ 0
  · refine ⟨errBadParam, none, ?_, ?_, herror (by decide)⟩
    · simp only [afRpcGetBlobWithLengthFromBufferAtPos]
      rw [if_pos hsize]
      rfl
    · simp only [afRpcGetBlobWithLengthFromBufferAtPos]
      rw [if_pos hsize]
      rfl
  obtain ⟨hsize', hroom⟩ := not_or.mp hsize
  have hlarge := (size_large hsmall).mp hsize'
  have h2' : 2 ≤ buf.length := by omega
  obtain ⟨len, hlen, hlenp⟩ := getlen_lengthPrefix h2'
  rcases Nat.lt_or_ge buf.length (lengthPrefix buf) with hlong | hstored
  · have hret : afRpcGetBlobWithLengthFromBufferAtPos room buf buf.length pos =
        .ok (errBadTlv, none) := by
      rw [getBlob_eq hsize hlen, hlenp, if_pos (by omega)]
    refine ⟨errBadTlv, none, hret, ?_, herror (by decide)⟩
    rw [messageBytes_long (by omega), hret]
  have hlen' : getlen (messageBytes buf) 0 = .ok len := by
    rw [messageBytes, getlen_take (by omega) (by omega), hlen]
  rw [getBlob_eq hsize hlen, getBlob_eq hsize hlen', hlenp]
  by_cases hbehind : startAt pos > lengthPrefix buf
  · refine ⟨errBadParam, none, ?_, ?_, herror (by decide)⟩
    · rw [if_neg (by omega), if_pos hbehind]
    · rw [if_neg (by omega), if_pos hbehind]
  have hfield : startAt pos + 2 ≤ lengthPrefix buf := by
    by_contra hshort
    exact hread ⟨room, rfl, by omega, hlarge, hstored, by omega, by omega⟩
  obtain ⟨type, htypeAt⟩ := @getlenAt_ok buf (startAt pos) (by omega) (by omega)
  have htypeAt' : getlenAt (messageBytes buf) (startAt pos) = .ok type := by
    rw [messageBytes, getlenAt_take (by omega) (by omega) (by omega), htypeAt]
  rw [if_neg (by omega), if_neg hbehind, if_neg (by omega), if_neg hbehind]
  simp only [htypeAt, htypeAt', bind, Except.bind]
  by_cases hblob : ¬ typeIsBlob type = true
  · rw [if_pos hblob, if_pos hblob]
    exact ⟨errBadType, none, rfl, rfl, herror (by decide)⟩
  rw [if_neg hblob, if_neg hblob]
  by_cases hover : startAt pos + typeSize + (blobSize type).toNat > lengthPrefix buf
  · rw [if_pos hover, if_pos hover]
    exact ⟨errBadTlv, none, rfl, rfl, herror (by decide)⟩
  rw [if_neg hover, if_neg hover]
  by_cases hwide : ((blobSize type).toNat : Int) > room
  · rw [if_pos hwide, if_pos hwide]
    exact ⟨errBufferOverflow, none, rfl, rfl, herror (by decide)⟩
  rw [if_neg hwide, if_neg hwide]
  by_cases hempty : (blobSize type).toNat ≠ 0
  · obtain ⟨bs, hbs⟩ := @loadAt_ok buf (startAt pos + typeSize) (blobSize type).toNat
      (by omega) (by omega)
    have hbs' : loadAt (messageBytes buf) (startAt pos + typeSize) (blobSize type).toNat =
        .ok bs := by
      rw [messageBytes, loadAt_take (by omega) (by omega) (by omega), hbs]
    rw [if_pos hempty, if_pos hempty]
    simp only [hbs, hbs']
    exact ⟨_, _, rfl, rfl, fun _ => by omega, fun hneg => absurd hneg (by omega)⟩
  · rw [if_neg hempty, if_neg hempty]
    exact ⟨_, _, rfl, rfl, fun _ => by omega, fun hneg => absurd hneg (by omega)⟩

/-- A type field that ends behind the message is read all the same. -/
theorem not_staysInside_of_readsBehind {g : Getter} (hsmall : buf.length < 2 ^ 31) (hpos : 0 ≤ pos)
    (hread : ReadsBehind g buf pos) : ¬ StaysInside g buf pos := by
  obtain ⟨room, rfl, hroom, hlarge, hstored, hle, hshort⟩ := hread
  rintro ⟨ret, value, _, hmessage, _⟩
  obtain ⟨hstart, _⟩ := startAt_pos hpos
  have hsize : ¬ (sizeT buf.length ≤ lengthSize ∨ room ≤ 0) := by
    rw [not_or]
    exact ⟨(size_large hsmall).mpr hlarge, by omega⟩
  have h2' : 2 ≤ buf.length := by omega
  obtain ⟨len, hlen, hlenp⟩ := getlen_lengthPrefix h2'
  have hlen' : getlen (messageBytes buf) 0 = .ok len := by
    rw [messageBytes, getlen_take (by omega) (by omega), hlen]
  have htrap : getlenAt (messageBytes buf) (startAt pos) = .error .outOfBounds := by
    have hlength : (messageBytes buf).length = max 2 (lengthPrefix buf) := by
      rw [messageBytes, List.length_take]
      omega
    rw [getlenAt, loadAt, if_neg (by omega), load, if_neg (by omega)]
    rfl
  have hfail : afRpcGetBlobWithLengthFromBufferAtPos room (messageBytes buf) buf.length pos =
      .error .outOfBounds := by
    rw [getBlob_eq hsize hlen', hlenp, if_neg (by omega), if_neg (by omega)]
    simp only [htrap, bind, Except.bind]
  simp only [Getter.call, hfail, bind, Except.bind] at hmessage
  cases hmessage

/-- **The getters stay inside the message** from every position from 0 on, but for the
    blob getter at the end of the message and one byte before it. -/
theorem staysInside_iff (g : Getter) (buf : List Byte) (pos : Int) (hsmall : buf.length < 2 ^ 31)
    (hpos : 0 ≤ pos) : StaysInside g buf pos ↔ ¬ ReadsBehind g buf pos := by
  refine ⟨?_, ?_⟩
  · intro hinside hread
    exact not_staysInside_of_readsBehind hsmall hpos hread hinside
  · intro hread
    cases g with
    | int k => exact staysInside_int k hsmall hpos
    | blob room =>
        obtain ⟨ret, bytes, hret, hret', hforward, hnone⟩ := getBlob_bounds room hsmall hpos hread
        refine ⟨ret, bytes.map .blob, ?_, ?_, hforward, fun hneg => ?_⟩
        · simp only [Getter.call, hret]
          rfl
        · simp only [Getter.call, hret']
          rfl
        · rw [hnone hneg]
          rfl

/-- The first parameter of a message of one byte-sized integer. -/
theorem staysInside_iff_uint8 :
    StaysInside (.int .uint8) [0, 5, 0x90, 0, 7] 0 ↔
      ¬ ReadsBehind (.int .uint8) [0, 5, 0x90, 0, 7] 0 :=
  staysInside_iff (.int .uint8) [0, 5, 0x90, 0, 7] 0 (by decide) (by decide)

/-- A walk that ends at the end of a well-formed message: the blob getter reads two
    bytes behind the buffer. -/
theorem getBlob_at_end_traps :
    (Getter.blob 16).call [0, 5, 0x90, 0, 7] 5 5 = .error .outOfBounds ∧
      ¬ StaysInside (.blob 16) [0, 5, 0x90, 0, 7] 5 := by
  have htrap : (Getter.blob 16).call [0, 5, 0x90, 0, 7] 5 5 = .error .outOfBounds := by rfl
  refine ⟨htrap, ?_⟩
  rintro ⟨ret, value, hret, _⟩
  have hcall := htrap.symm.trans hret
  cases hcall

end Inside

-- ============================================================================
-- Negative positions
-- ============================================================================

/-- The call returns a negative `int`, reads inside the buffer only and stores
    nothing. -/
def Fails (g : Getter) (buf : List Byte) (bufSize pos : Int) : Prop :=
  ∃ ret, g.call buf bufSize pos = .ok (ret, none) ∧ ret < 0 ∧ -(2 ^ 31) ≤ ret

/-- A negative argument passes for a large one: a negative size of the buffer, or a
    negative position.  A position passes the checks of an integer getter where the
    field would end in the message, and those of the blob getter always. -/
def Getter.Wraps (buf : List Byte) (bufSize pos : Int) : Getter → Prop
  | .int k => bufSize < 0 ∨ 2 < bufSize ∧ lengthPrefix buf ≤ bufSize ∧ 0 ≤ pos + 2 + k.width ∧
      pos + 2 + k.width ≤ lengthPrefix buf
  | .blob room => 0 < room ∧ (bufSize < 0 ∨ 2 < bufSize ∧ lengthPrefix buf ≤ bufSize)

/-- A call in a chain: the position goes on to the next call, errors included. -/
def chainStep (buf : List Byte) (bufSize pos : Int) (g : Getter) : Except Trap Int := do
  let (ret, _) ← g.call buf bufSize pos
  return ret

section Negative

variable {buf : List Byte} {bufSize pos : Int}

theorem startAt_neg (hpos : pos < 0) : startAt pos = pos := by
  rw [startAt, if_neg (by omega)]

/-- A negative size passes the first check. -/
theorem sizeT_negative (hneg : bufSize < 0) (hint : -(2 ^ 31) ≤ bufSize) :
    ¬ sizeT bufSize ≤ lengthSize := by
  have htwo : lengthSize = 2 := rfl
  rw [sizeT]
  omega

theorem getlenAt_neg (hpos : pos < 0) : getlenAt buf pos = .error .outOfBounds := by
  rw [getlenAt, loadAt, if_pos hpos]
  rfl

theorem not_fails_of_trap {g : Getter} {e : Trap} (htrap : g.call buf bufSize pos = .error e) :
    ¬ Fails g buf bufSize pos := by
  rintro ⟨ret, hret, _⟩
  rw [htrap] at hret
  cases hret

theorem getInt_fails {k : IntKind} {ret : Int}
    (hret : getIntFromBufferAtPos k.type k.width buf bufSize pos = .ok (ret, none))
    (hneg : ret < 0 ∧ -(2 ^ 31) ≤ ret) : Fails (.int k) buf bufSize pos := by
  refine ⟨ret, ?_, hneg⟩
  simp only [Getter.call, getIntOfKind_eq, hret]
  rfl

theorem getInt_traps {k : IntKind}
    (htrap : getIntFromBufferAtPos k.type k.width buf bufSize pos = .error .outOfBounds) :
    ¬ Fails (.int k) buf bufSize pos := by
  apply not_fails_of_trap (e := .outOfBounds)
  simp only [Getter.call, getIntOfKind_eq, htrap, bind, Except.bind]

theorem getBlob_fails {room ret : Int}
    (hret : afRpcGetBlobWithLengthFromBufferAtPos room buf bufSize pos = .ok (ret, none))
    (hneg : ret < 0 ∧ -(2 ^ 31) ≤ ret) : Fails (.blob room) buf bufSize pos := by
  refine ⟨ret, ?_, hneg⟩
  simp only [Getter.call, hret]
  rfl

theorem getBlob_traps {room : Int}
    (htrap : afRpcGetBlobWithLengthFromBufferAtPos room buf bufSize pos = .error .outOfBounds) :
    ¬ Fails (.blob room) buf bufSize pos := by
  apply not_fails_of_trap (e := .outOfBounds)
  simp only [Getter.call, htrap, bind, Except.bind]

/-- No byte of a buffer of negative size can be read. -/
theorem getlen_negative (hbuf : buf.length = bufSize.toNat) (hneg : bufSize < 0) :
    getlen buf 0 = .error .outOfBounds := by
  rw [getlen, load, if_neg (by omega)]
  rfl

theorem getInt_fails_iff (k : IntKind) (hbuf : buf.length = bufSize.toNat)
    (hsize : -(2 ^ 31) ≤ bufSize ∧ bufSize < 2 ^ 31) (hpos : pos < 0) (hint : -(2 ^ 31) ≤ pos) :
    Fails (.int k) buf bufSize pos ↔ ¬ (Getter.int k).Wraps buf bufSize pos := by
  have hwidth := width_le k
  have htwo : ((lengthSize : Nat) : Int) = 2 := rfl
  have htype : ((typeSize : Nat) : Int) = 2 := rfl
  rcases Int.lt_or_le bufSize 0 with hneg | hnonneg
  · -- a negative size
    refine iff_of_false (getInt_traps ?_) (not_not.mpr (.inl hneg))
    simp only [getIntFromBufferAtPos]
    rw [if_neg (sizeT_negative hneg hsize.1), getlen_negative hbuf hneg]
    rfl
  have hconv : sizeT bufSize = bufSize.toNat := sizeT_of_nonneg hnonneg (by omega)
  rcases Int.lt_or_le 2 bufSize with hlarge | hsmall
  · have hcheck : ¬ sizeT bufSize ≤ lengthSize := by omega
    have h2' : 2 ≤ buf.length := by omega
    obtain ⟨len, hlen, hlenp⟩ := getlen_lengthPrefix h2'
    have hlt := len.isLt
    have hcall := @getInt_eq buf len bufSize pos k.type k.width hcheck hlen
    rw [hlenp, startAt_neg hpos] at hcall
    rcases Int.lt_or_le bufSize (lengthPrefix buf) with hlong | hstored
    · rw [if_pos hlong] at hcall
      refine iff_of_true (getInt_fails hcall (by decide)) ?_
      rintro (hbad | ⟨_, hle, _⟩) <;> omega
    rw [if_neg (by omega), if_neg (by omega)] at hcall
    by_cases hwrap : 0 ≤ pos + 2 + k.width ∧ pos + 2 + k.width ≤ lengthPrefix buf
    · -- the sum wraps to the end of a field inside the message
      have hend : sizeT (pos + typeSize + k.width) = (pos + 2 + k.width).toNat := by
        rw [htype]
        exact sizeT_of_nonneg hwrap.1 (by omega)
      rw [if_neg (by omega), getlenAt_neg hpos] at hcall
      exact iff_of_false (getInt_traps hcall) (not_not.mpr (.inr ⟨hlarge, hstored, hwrap⟩))
    · have hend : sizeT (pos + typeSize + k.width) > lengthPrefix buf := by
        rw [htype, sizeT]
        omega
      rw [if_pos hend] at hcall
      refine iff_of_true (getInt_fails hcall (by decide)) ?_
      rintro (hbad | ⟨_, _, hin⟩)
      · omega
      · exact hwrap hin
  · refine iff_of_true (getInt_fails ?_ (by decide : errBadParam < 0 ∧ -(2 ^ 31) ≤ errBadParam)) ?_
    · simp only [getIntFromBufferAtPos]
      rw [if_pos (by omega)]
      rfl
    · rintro (hbad | ⟨hbad, _⟩) <;> omega

theorem getBlob_fails_iff (room : Int) (hbuf : buf.length = bufSize.toNat)
    (hsize : -(2 ^ 31) ≤ bufSize ∧ bufSize < 2 ^ 31) (hpos : pos < 0) :
    Fails (.blob room) buf bufSize pos ↔ ¬ (Getter.blob room).Wraps buf bufSize pos := by
  have htwo : ((lengthSize : Nat) : Int) = 2 := rfl
  by_cases hcheck : sizeT bufSize ≤ lengthSize ∨ room ≤ 0
  · refine iff_of_true (getBlob_fails ?_ (by decide : errBadParam < 0 ∧ -(2 ^ 31) ≤ errBadParam)) ?_
    · simp only [afRpcGetBlobWithLengthFromBufferAtPos]
      rw [if_pos hcheck]
      rfl
    · rintro ⟨hroom, hwrap⟩
      rcases hcheck with hsmall | hnone
      · rcases hwrap with hneg | ⟨hlarge, _⟩
        · exact sizeT_negative hneg hsize.1 hsmall
        · rw [sizeT_of_nonneg (by omega) (by omega)] at hsmall
          omega
      · omega
  obtain ⟨hlarge, hroom⟩ := not_or.mp hcheck
  rcases Int.lt_or_le bufSize 0 with hneg | hnonneg
  · refine iff_of_false (getBlob_traps ?_) (not_not.mpr ⟨by omega, .inl hneg⟩)
    simp only [afRpcGetBlobWithLengthFromBufferAtPos]
    rw [if_neg hcheck, getlen_negative hbuf hneg]
    rfl
  rw [sizeT_of_nonneg hnonneg (by omega)] at hlarge
  have h2' : 2 ≤ buf.length := by omega
  obtain ⟨len, hlen, hlenp⟩ := getlen_lengthPrefix h2'
  have hcall := @getBlob_eq buf len bufSize pos room hcheck hlen
  rw [hlenp, startAt_neg hpos] at hcall
  rcases Int.lt_or_le bufSize (lengthPrefix buf) with hlong | hstored
  · rw [if_pos hlong] at hcall
    refine iff_of_true (getBlob_fails hcall (by decide)) ?_
    rintro ⟨_, hbad | ⟨_, hle⟩⟩ <;> omega
  · -- the type field is read at the negative index
    rw [if_neg (by omega), if_neg (by omega), getlenAt_neg hpos] at hcall
    exact iff_of_false (getBlob_traps hcall)
      (not_not.mpr ⟨by omega, .inr ⟨by omega, hstored⟩⟩)

/-- A getter on a negative position. -/
theorem fails_iff (g : Getter) (hbuf : buf.length = bufSize.toNat)
    (hsize : -(2 ^ 31) ≤ bufSize ∧ bufSize < 2 ^ 31) (hpos : pos < 0) (hint : -(2 ^ 31) ≤ pos) :
    Fails g buf bufSize pos ↔ ¬ g.Wraps buf bufSize pos := by
  cases g with
  | int k => exact getInt_fails_iff k hbuf hsize hpos hint
  | blob room => exact getBlob_fails_iff room hbuf hsize hpos

/-- **Errors are sticky** as long as no negative argument passes for a large one: a call
    on a negative position fails exactly then, and a chain of such calls fails at
    every call. -/
theorem chain_sticky_iff (buf : List Byte) (bufSize : Int) (hbuf : buf.length = bufSize.toNat)
    (hsize : -(2 ^ 31) ≤ bufSize ∧ bufSize < 2 ^ 31) :
    (∀ g pos, pos < 0 → -(2 ^ 31) ≤ pos →
      (Fails g buf bufSize pos ↔ ¬ g.Wraps buf bufSize pos)) ∧
    ∀ gs pos, pos < 0 → -(2 ^ 31) ≤ pos →
      Conforms (chainStep buf bufSize) (fun p g => ¬ g.Wraps buf bufSize p) pos gs →
      ∃ ret, run (chainStep buf bufSize) pos gs = .ok ret ∧ ret < 0 := by
  refine ⟨fun g pos hpos hint => fails_iff g hbuf hsize hpos hint, fun gs => ?_⟩
  induction gs with
  | nil => exact fun pos hpos _ _ => ⟨pos, rfl, hpos⟩
  | cons g gs ih =>
      intro pos hpos hint hconf
      obtain ⟨ret, hret, hneg, hlow⟩ := (fails_iff g hbuf hsize hpos hint).mpr hconf.1
      have hstep : chainStep buf bufSize pos g = .ok ret := by
        rw [chainStep, hret]
        rfl
      rw [run_cons, hstep]
      exact ih ret hneg hlow (hconf.2 ret hstep)

/-- A position from which no field ends inside the message. -/
theorem chain_sticky_iff_far :
    (Fails (.int .uint8) [0, 5, 0x90, 0, 7] 5 (-4) ↔
      ¬ (Getter.int .uint8).Wraps [0, 5, 0x90, 0, 7] 5 (-4)) ∧
    ∃ ret, run (chainStep [0, 5, 0x90, 0, 7] 5) (-4) [.int .uint8] = .ok ret ∧ ret < 0 := by
  obtain ⟨hcall, hchain⟩ := chain_sticky_iff [0, 5, 0x90, 0, 7] 5 rfl (by decide)
  refine ⟨hcall _ (-4) (by decide) (by decide), ?_⟩
  apply hchain [.int .uint8] (-4) (by decide) (by decide)
  refine ⟨?_, fun _ _ => trivial⟩
  rintro (hbad | ⟨_, _, hbad, _⟩)
  · exact absurd hbad (by decide)
  · exact absurd hbad (by decide)

/-- A chain that goes on behind an error: the getter reads before the buffer. -/
theorem getUint8_after_error_traps :
    (Getter.int .uint8).call [0, 5, 0x90, 0, 7] 5 errBadParam = .error .outOfBounds ∧
      ¬ Fails (.int .uint8) [0, 5, 0x90, 0, 7] 5 errBadParam := by
  have htrap : (Getter.int .uint8).call [0, 5, 0x90, 0, 7] 5 errBadParam =
      .error .outOfBounds := by rfl
  exact ⟨htrap, not_fails_of_trap htrap⟩

end Negative

end AfIpc.Rpc
