/-
  AfIpc.Lib.History

  Histories, oldest entry first, in which every entry answers to what was there
  before it: `Justified P t` says that `P` holds of each entry of `t` and its
  past.  It is built up entry by entry (`justified_concat`), and gives back, for
  an entry anywhere in the history, the past it was justified by.
-/

import Mathlib.Data.List.Induction
import Mathlib.Data.List.Nodup

namespace AfIpc.Lib

variable {α β : Type} {P Q : List α → α → Prop} {t u : List α} {a : α}

/-- Every entry is justified by its past. -/
def Justified (P : List α → α → Prop) (t : List α) : Prop :=
  ∀ t₁ a t₂, t = t₁ ++ a :: t₂ → P t₁ a

theorem justified_nil : Justified P [] := by
  intro t₁ a t₂ h
  simp at h

theorem justified_concat : Justified P (t ++ [a]) ↔ Justified P t ∧ P t a := by
  refine ⟨?_, ?_⟩
  · intro h
    refine ⟨fun t₁ b t₂ ht => h t₁ b (t₂ ++ [a]) ?_, h t a [] rfl⟩
    rw [ht, List.append_assoc, List.cons_append]
  · rintro ⟨h, ha⟩ t₁ b t₂ ht
    rcases List.eq_nil_or_concat t₂ with rfl | ⟨t₂', c, rfl⟩
    · obtain ⟨rfl, hb⟩ := List.append_inj' ht rfl
      cases hb
      exact ha
    · rw [List.concat_eq_append, ← List.cons_append, ← List.append_assoc] at ht
      obtain ⟨rfl, _⟩ := List.append_inj' ht rfl
      exact h t₁ b t₂' rfl

/-- A history goes on with entries that are justified whatever was before. -/
theorem Justified.append (h : Justified P t) (hu : ∀ a ∈ u, ∀ past, P past a) :
    Justified P (t ++ u) := by
  induction u generalizing t with
  | nil =>
      rw [List.append_nil]
      exact h
  | cons a u ih =>
      rw [List.append_cons]
      have ha := justified_concat.mpr ⟨h, hu a List.mem_cons_self t⟩
      exact ih ha (fun b hb => hu b (List.mem_cons_of_mem a hb))

/-- The past of a history is one. -/
theorem Justified.past (h : Justified P (t ++ u)) : Justified P t := by
  intro t₁ a t₂ ht
  apply h t₁ a (t₂ ++ u)
  rw [ht, List.append_assoc, List.cons_append]

/-- Induction over a history. -/
theorem Justified.induction {motive : List α → Prop} (nil : motive [])
    (concat : ∀ t a, Justified P t → P t a → motive t → motive (t ++ [a])) (h : Justified P t) :
    motive t := by
  induction t using List.reverseRecOn with
  | nil => exact nil
  | append_singleton t a ih =>
      obtain ⟨ht, ha⟩ := justified_concat.mp h
      exact concat t a ht ha (ih ht)

/-- Entries whose key is new each time have distinct keys. -/
theorem Justified.nodup {key : α → Option β} (h : Justified P t)
    (hnew : ∀ past a k, P past a → key a = some k → ∀ b ∈ past, key b ≠ some k) :
    (t.filterMap key).Nodup := by
  refine Justified.induction (motive := fun t => (t.filterMap key).Nodup) List.nodup_nil ?_ h
  intro t a _ ha ih
  rw [List.filterMap_append, List.nodup_append']
  refine ⟨ih, ?_, ?_⟩
  · cases hk : key a with
    | none => simp [hk]
    | some k => simp [hk]
  · intro k hmem hlast
    obtain ⟨b, hb, hkey⟩ := List.mem_filterMap.mp hmem
    have hk : key a = some k := by simpa using hlast
    exact hnew t a k ha hk b hb hkey

end AfIpc.Lib
