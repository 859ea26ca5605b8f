/-
  AfIpc.Ipc.InOrder

  What the receive callback of a connection is handed, against what has been taken on the
  connection.  A trace is heeded if the two agree: each message that is no response has
  been handed over, once and in its place.  The calls of an application do not change
  this, and a frame that is taken does not if its callback is called for it.

  A message is known by its payload and the number that the peer has given it, which is 0
  if it is no request.
-/

import AfIpc.Ipc.Correlation

namespace AfIpc.Ipc

open AfIpc.Lib

-- ============================================================================
-- Messages
-- ============================================================================

/-- The number of a message without the mark of a request. -/
def messageId (seqNum : BitVec 32) : BitVec 32 := getSeqId seqNum &&& ~~~newRequestMask

theorem messageId_delivered (cid : BitVec 16) (seqNum : BitVec 32) :
    messageId (deliveredSeqNum cid (getSeqId seqNum)) = messageId seqNum := by
  have htwice : getSeqId (getSeqId seqNum) = getSeqId seqNum := by
    rw [getSeqId, getSeqId, BitVec.and_assoc, BitVec.and_self]
  rw [messageId, messageId, getSeqId_deliveredSeqNum, htwice, BitVec.and_assoc, BitVec.and_self]

instance (f : Frame) : Decidable f.IsNew := inferInstanceAs (Decidable (_ ∨ _))

def Frame.message (f : Frame) : BitVec 32 × List Byte := (messageId f.seqNum, f.payload)

/-- What the receive callback has been handed on a connection, in order. -/
def receivedOn (conn : Nat) (trace : List Call) : List (BitVec 32 × List Byte) :=
  trace.filterMap (fun c => match c with
    | .receiveCallback p seqNum payload _ =>
        if p = conn then some (messageId seqNum, payload) else none
    | _ => none)

/-- The requests and unsolicited messages that have been sent on a connection, in order. -/
def messagesOn (conn : Nat) (trace : List Call) : List (BitVec 32 × List Byte) :=
  trace.filterMap (fun c => match c with
    | .sendmsg p _ sentBy packet true =>
        if p = conn ∧ sentBy ≠ .response then some packet.frame.message else none
    | _ => none)

/-- The requests and unsolicited messages among the frames. -/
def messagesIn (frames : List Frame) : List (BitVec 32 × List Byte) :=
  (frames.filter (fun f => f.IsNew)).map Frame.message

/-- The call takes a frame, or hands one over. -/
def Call.incoming : Call → Bool
  | .frame _ _ => true
  | .receiveCallback _ _ _ _ => true
  | _ => false

/-- On every connection, what has been handed over is what has been taken. -/
def Heeded (trace : List Call) : Prop :=
  ∀ conn, receivedOn conn trace = messagesIn (takenOn conn trace)

section Messages

variable {conn : Nat} {t u : List Call} {f : Frame}

theorem receivedOn_append (conn : Nat) (t u : List Call) :
    receivedOn conn (t ++ u) = receivedOn conn t ++ receivedOn conn u := List.filterMap_append

theorem messagesOn_append (conn : Nat) (t u : List Call) :
    messagesOn conn (t ++ u) = messagesOn conn t ++ messagesOn conn u := List.filterMap_append

theorem takenOn_append (conn : Nat) (t u : List Call) :
    takenOn conn (t ++ u) = takenOn conn t ++ takenOn conn u := by
  rw [takenOn, takenOf_append, List.filterMap_append]
  rfl

theorem messagesIn_append (fs gs : List Frame) :
    messagesIn (fs ++ gs) = messagesIn fs ++ messagesIn gs := by
  rw [messagesIn, List.filter_append, List.map_append]
  rfl

/-- Calls that neither take nor hand over anything. -/
theorem quiet_of_outgoing (hu : ∀ c ∈ u, c.incoming = false) (conn : Nat) :
    receivedOn conn u = [] ∧ takenOn conn u = [] := by
  have htaken : takenOf u = [] := by
    rw [takenOf, List.filterMap_eq_nil_iff]
    intro c hc
    have hout := hu c hc
    cases c <;> first | rfl | cases hout
  refine ⟨?_, ?_⟩
  · rw [receivedOn, List.filterMap_eq_nil_iff]
    intro c hc
    have hout := hu c hc
    cases c <;> first | rfl | cases hout
  · rw [takenOn, htaken]
    rfl

theorem Heeded.append (h : Heeded t) (hu : Heeded u) : Heeded (t ++ u) := by
  intro conn
  rw [receivedOn_append, takenOn_append, messagesIn_append, h conn, hu conn]

theorem heeded_of_outgoing (hu : ∀ c ∈ u, c.incoming = false) : Heeded u := by
  intro conn
  obtain ⟨hreceived, htaken⟩ := quiet_of_outgoing hu conn
  rw [hreceived, htaken]
  rfl

/-- Between the two, nothing is taken or handed over. -/
def Silent (t t' : List Call) : Prop := ∃ u, t' = t ++ u ∧ ∀ c ∈ u, c.incoming = false

theorem Silent.refl (t : List Call) : Silent t t :=
  ⟨[], (List.append_nil t).symm, fun _ hc => absurd hc List.not_mem_nil⟩

theorem Silent.trans {t t' t'' : List Call} (h : Silent t t') (h' : Silent t' t'') :
    Silent t t'' := by
  obtain ⟨u, rfl, hu⟩ := h
  obtain ⟨u', rfl, hu'⟩ := h'
  refine ⟨u ++ u', List.append_assoc t u u', fun c hc => ?_⟩
  rcases List.mem_append.mp hc with hold | hnew
  · exact hu c hold
  · exact hu' c hnew

theorem silent_concat {c : Call} (hc : c.incoming = false) : Silent t (t ++ [c]) := by
  refine ⟨[c], rfl, fun d hd => ?_⟩
  rw [List.mem_singleton.mp hd]
  exact hc

theorem Heeded.silent {t t' : List Call} (h : Heeded t) (ht : Silent t t') : Heeded t' := by
  obtain ⟨u, rfl, hu⟩ := ht
  exact h.append (heeded_of_outgoing hu)

/-- A response is not handed over. -/
theorem heeded_response (hold : ¬ f.IsNew) : Heeded [.frame conn f] := by
  intro p
  by_cases hp : conn = p
  · simp [receivedOn, takenOn, takenOf, messagesIn, hp, hold]
  · simp [receivedOn, takenOn, takenOf, messagesIn, hp]

/-- A message is, as it came. -/
theorem heeded_message (hnew : f.IsNew) (cid : BitVec 16) (context : Context) :
    Heeded [.frame conn f,
      .receiveCallback conn (deliveredSeqNum cid (getSeqId f.seqNum)) f.payload context] := by
  intro p
  by_cases hp : conn = p
  · simp [receivedOn, takenOn, takenOf, messagesIn, hp, hnew, Frame.message, messageId_delivered]
  · simp [receivedOn, takenOn, takenOf, messagesIn, hp]

end Messages

end AfIpc.Ipc
