/-
  AfIpc.Lib.FirstMatch

  Lists searched by key, front to back.  Whatever the keys, erasing the first
  match takes the head off the elements with the key and leaves the others.  Among
  distinct keys a search finds the one element with the key, and erasing the
  first match is filtering the key out.
-/

import Mathlib.Data.List.Nodup

namespace AfIpc.Lib

variable {α β γ : Type} [DecidableEq β] [DecidableEq γ] {key : α → β} {key' : α → γ} {l : List α}

/-- Removing the first match takes it off the elements with the key. -/
theorem filter_eraseP_self (k : β) :
    (l.eraseP (fun b => key b = k)).filter (fun b => key b = k) =
      (l.filter (fun b => key b = k)).tail := by
  induction l with
  | nil => rfl
  | cons b l ih =>
      by_cases hk : key b = k
      · rw [List.eraseP_cons_of_pos (by simpa using hk), List.filter_cons_of_pos (by simpa using hk),
          List.tail_cons]
      · rw [List.eraseP_cons_of_neg (by simpa using hk), List.filter_cons_of_neg (by simpa using hk),
          List.filter_cons_of_neg (by simpa using hk), ih]

/-- It leaves the elements with another key. -/
theorem filter_eraseP_of_ne {k k' : β} (hne : k' ≠ k) :
    (l.eraseP (fun b => key b = k)).filter (fun b => key b = k') =
      l.filter (fun b => key b = k') := by
  induction l with
  | nil => rfl
  | cons b l ih =>
      by_cases hk : key b = k
      · have hk' : key b ≠ k' := fun heq => hne (heq.symm.trans hk)
        rw [List.eraseP_cons_of_pos (by simpa using hk), List.filter_cons_of_neg (by simpa using hk')]
      · rw [List.eraseP_cons_of_neg (by simpa using hk)]
        simp only [List.filter_cons, ih]

/-- Among distinct keys the first match of an element's key is the element. -/
theorem find?_key (h : (l.map key).Nodup) {a : α} (ha : a ∈ l) :
    l.find? (fun b => key b = key a) = some a := by
  induction l with
  | nil => cases ha
  | cons b l ih =>
      rw [List.map_cons, List.nodup_cons] at h
      rcases List.mem_cons.mp ha with rfl | ha
      · simp
      · have hne : key b ≠ key a := fun heq => h.1 (heq ▸ List.mem_map_of_mem ha)
        rw [List.find?_cons_of_neg (by simpa using hne), ih h.2 ha]

/-- Removing the first match of an element's key removes that element. -/
theorem eraseP_key (h : (l.map key).Nodup) (k : β) :
    l.eraseP (fun b => key b = k) = l.filter (fun b => key b ≠ k) := by
  induction l with
  | nil => rfl
  | cons b l ih =>
      rw [List.map_cons, List.nodup_cons] at h
      by_cases hk : key b = k
      · have hrest : l.filter (fun b => key b ≠ k) = l := by
          rw [List.filter_eq_self]
          intro c hc
          have hne : key c ≠ k := fun heq => h.1 (hk ▸ heq ▸ List.mem_map_of_mem hc)
          simpa using hne
        rw [List.eraseP_cons_of_pos (by simpa using hk), List.filter_cons_of_neg (by simpa using hk),
          hrest]
      · rw [List.eraseP_cons_of_neg (by simpa using hk), List.filter_cons_of_pos (by simpa using hk),
          ih h.2]

/-- Two keys that are both distinct pick the same elements. -/
theorem filter_key (h : (l.map key).Nodup) (h' : (l.map key').Nodup) {a : α} (ha : a ∈ l) :
    l.filter (fun b => key b ≠ key a) = l.filter (fun b => key' b ≠ key' a) := by
  apply List.filter_congr
  intro b hb
  have hiff : key b = key a ↔ key' b = key' a := by
    refine ⟨?_, ?_⟩
    · intro heq
      rw [List.inj_on_of_nodup_map h hb ha heq]
    · intro heq
      rw [List.inj_on_of_nodup_map h' hb ha heq]
  rw [decide_eq_decide]
  exact not_congr hiff

/-- A list splits in one way at its first element with a property. -/
theorem split_first_unique {P : α → Prop} {before before' after after' : List α} {a a' : α}
    (h : before ++ a :: after = before' ++ a' :: after') (hbefore : ∀ b ∈ before, ¬ P b)
    (hbefore' : ∀ b ∈ before', ¬ P b) (ha : P a) (ha' : P a') : a = a' ∧ after = after' := by
  rcases List.append_eq_append_iff.mp h with ⟨mid, rfl, hmid⟩ | ⟨mid, rfl, hmid⟩
  · cases mid with
    | nil => exact List.cons.inj hmid
    | cons b mid =>
        obtain ⟨rfl, -⟩ := List.cons.inj hmid
        exact absurd ha (hbefore' a (List.mem_append_right before List.mem_cons_self))
  · cases mid with
    | nil =>
        obtain ⟨rfl, rfl⟩ := List.cons.inj hmid
        exact ⟨rfl, rfl⟩
    | cons b mid =>
        obtain ⟨rfl, -⟩ := List.cons.inj hmid
        exact absurd ha' (hbefore a' (List.mem_append_right before' List.mem_cons_self))

end AfIpc.Lib
