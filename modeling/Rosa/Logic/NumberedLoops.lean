import Mathlib.Tactic

/-!
# Loops over numbered entries

A loop over a list whose body also sees the position of the entry. The invariant may speak of
the position; for a loop that may fail there is a second postcondition for the failure.
-/

namespace Rosa

/-- A loop over numbered entries keeps what every turn keeps. -/
theorem foldl_zipIdx_induction {α β : Type} {f : β → α × Nat → β} {P : Nat → β → Prop}
    {entries : List α}
    (hstep : ∀ i a b, entries[i]? = some a → P i b → P (i + 1) (f b (a, i))) {b : β} (h : P 0 b) :
    P entries.length (entries.zipIdx.foldl f b) := by
  have hfold (rest : List α) : ∀ {i : Nat} {b : β}, entries.drop i = rest → i ≤ entries.length →
      P i b → P entries.length ((rest.zipIdx i).foldl f b) := by
    induction rest with
    | nil =>
      intro i b hdrop hle h
      obtain rfl : i = entries.length := by
        have := List.drop_eq_nil_iff.mp hdrop
        omega
      exact h
    | cons a rest ih =>
      intro i b hdrop hle h
      have ha : entries[i]? = some a := by
        rw [← List.head?_drop, hdrop]
        rfl
      have hlt := (List.getElem?_eq_some_iff.mp ha).1
      refine ih ?_ hlt (hstep i a b ha h)
      rw [← List.tail_drop, hdrop, List.tail_cons]
  exact hfold entries rfl (Nat.zero_le _) h

/-- The same for a loop that may fail : every turn keeps `P`, or it fails and `Q` holds. -/
theorem foldlM_zipIdx_induction {α β ε : Type} {f : β → α × Nat → Except ε β}
    {P : Nat → β → Prop} {Q : Prop} {entries : List α}
    (hstep : ∀ i a b, entries[i]? = some a → P i b →
      (∃ b', f b (a, i) = .ok b' ∧ P (i + 1) b') ∨ (∃ e, f b (a, i) = .error e) ∧ Q)
    {b : β} (h : P 0 b) :
    (∃ b', entries.zipIdx.foldlM f b = .ok b' ∧ P entries.length b') ∨
      (∃ e, entries.zipIdx.foldlM f b = .error e) ∧ Q := by
  have hfold (rest : List α) : ∀ {i : Nat} {b : β}, entries.drop i = rest → i ≤ entries.length →
      P i b → (∃ b', (rest.zipIdx i).foldlM f b = .ok b' ∧ P entries.length b') ∨
        (∃ e, (rest.zipIdx i).foldlM f b = .error e) ∧ Q := by
    induction rest with
    | nil =>
      intro i b hdrop hle h
      obtain rfl : i = entries.length := by
        have := List.drop_eq_nil_iff.mp hdrop
        omega
      exact .inl ⟨b, rfl, h⟩
    | cons a rest ih =>
      intro i b hdrop hle h
      have ha : entries[i]? = some a := by
        rw [← List.head?_drop, hdrop]
        rfl
      have hlt := (List.getElem?_eq_some_iff.mp ha).1
      have hrest : entries.drop (i + 1) = rest := by
        rw [← List.tail_drop, hdrop, List.tail_cons]
      rw [List.zipIdx_cons, List.foldlM_cons]
      rcases hstep i a b ha h with ⟨b', hb', h'⟩ | ⟨⟨e, he⟩, hq⟩
      · rw [hb']
        exact ih hrest hlt h'
      · rw [he]
        exact .inr ⟨⟨e, rfl⟩, hq⟩
  exact hfold entries rfl (Nat.zero_le _) h

end Rosa
