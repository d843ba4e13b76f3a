import Mathlib.Data.List.AList
import Mathlib.Tactic

/-!
# Tables of shared values

A table whose entries refer to values : several entries may refer to one value, and the value is
released when the last of them goes. `Sound` says that the values are those that some entry refers
to. Whatever was given to the table is at every moment either held by it or released, once
(`Accounts`); what is counted of a value may be a part of it that no operation changes.
-/

namespace Rosa

/-- Entries with a mark of their own, values by reference, and the values released so far. -/
structure SharedTable (κ μ α : Type) [DecidableEq κ] where
  entries : AList fun _ : κ => Nat × μ := ∅
  cells : Nat → Option α := fun _ => none
  next : Nat := 0
  released : List α := []

namespace SharedTable

variable {κ μ α β : Type} [DecidableEq κ]

/-! ## Operations -/

/-- What an entry refers to. -/
def reference (t : SharedTable κ μ α) (k : κ) : Option Nat := (t.entries.lookup k).map Prod.fst

/-- The value of an entry. -/
def lookup (t : SharedTable κ μ α) (k : κ) : Option α := (t.reference k).bind t.cells

/-- The mark of an entry. -/
def mark (t : SharedTable κ μ α) (k : κ) : Option μ := (t.entries.lookup k).map Prod.snd

/-- An entry for a new value. -/
def add (t : SharedTable κ μ α) (k : κ) (m : μ) (a : α) : SharedTable κ μ α :=
  { t with
    entries := t.entries.insert k (t.next, m)
    cells := Function.update t.cells t.next (some a)
    next := t.next + 1 }

/-- One more entry for a value. -/
def share (t : SharedTable κ μ α) (k : κ) (m : μ) (r : Nat) : SharedTable κ μ α :=
  { t with entries := t.entries.insert k (r, m) }

/-- A value that did not get an entry. -/
def reject (t : SharedTable κ μ α) (a : α) : SharedTable κ μ α :=
  { t with released := t.released ++ [a] }

/-- Change the value of an entry. -/
def modify (t : SharedTable κ μ α) (k : κ) (f : α → α) : SharedTable κ μ α :=
  match t.reference k with
  | some r => { t with cells := Function.update t.cells r ((t.cells r).map f) }
  | none => t

/-- Change the mark of an entry. -/
def setMark (t : SharedTable κ μ α) (k : κ) (m : μ) : SharedTable κ μ α :=
  match t.reference k with
  | some r => { t with entries := t.entries.insert k (r, m) }
  | none => t

/-- Remove an entry, and the value with its last one. -/
def remove (t : SharedTable κ μ α) (k : κ) : SharedTable κ μ α :=
  match t.reference k with
  | some r =>
    let entries := t.entries.erase k
    if entries.entries.any fun e => e.2.1 = r then { t with entries }
    else
      { t with
        entries
        cells := Function.update t.cells r none
        released := t.released ++ (t.cells r).toList }
  | none => t

/-- The values that are held, in the order of their arrival. -/
def held (t : SharedTable κ μ α) : List α := (List.range t.next).filterMap t.cells

/-! ## Soundness -/

/-- The values are those that some entry refers to. -/
structure Sound (t : SharedTable κ μ α) : Prop where
  cell : ∀ {k r}, t.reference k = some r → r < t.next ∧ ∃ a, t.cells r = some a
  used : ∀ {r a}, t.cells r = some a → ∃ k, t.reference k = some r

variable {t : SharedTable κ μ α} {k k' : κ} {m : μ} {a : α} {r : Nat}

theorem Sound.fresh (h : t.Sound) (hr : t.next ≤ r) : t.cells r = none := by
  by_contra hne
  obtain ⟨a, ha⟩ := Option.ne_none_iff_exists'.mp hne
  obtain ⟨k, hk⟩ := h.used ha
  exact absurd (h.cell hk).1 (Nat.not_lt.mpr hr)

theorem Sound.empty : (({} : SharedTable κ μ α)).Sound where
  cell h := by simp [reference] at h
  used h := by cases h

theorem reference_add : (t.add k m a).reference k' =
    if k' = k then some t.next else t.reference k' := by
  unfold reference add
  by_cases h : k' = k
  · subst h
    simp
  · simp [h, AList.lookup_insert_ne h]

theorem reference_share : (t.share k m r).reference k' =
    if k' = k then some r else t.reference k' := by
  unfold reference share
  by_cases h : k' = k
  · subst h
    simp
  · simp [h, AList.lookup_insert_ne h]

theorem reference_setMark : (t.setMark k m).reference k' = t.reference k' := by
  unfold setMark
  split
  · next r hr =>
    unfold reference at hr ⊢
    by_cases h : k' = k
    · subst h
      simp [hr]
    · simp [AList.lookup_insert_ne h]
  · rfl

theorem reference_modify {f : α → α} : (t.modify k f).reference k' = t.reference k' := by
  unfold modify
  split <;> rfl

theorem reference_remove : (t.remove k).reference k' =
    if k' = k then none else t.reference k' := by
  have herase : ((t.entries.erase k).lookup k').map Prod.fst =
      if k' = k then none else t.reference k' := by
    by_cases h : k' = k
    · subst h
      simp
    · rw [AList.lookup_erase_ne h, if_neg h]
      rfl
  unfold remove
  split
  · dsimp only
    split <;> exact herase
  · next hnone =>
    split
    · next h => rw [h, hnone]
    · rfl

/-- Another entry than the removed one refers to the value. -/
theorem any_erase_iff : ((t.entries.erase k).entries.any fun e => e.2.1 = r) = true ↔
    ∃ k' ≠ k, t.reference k' = some r := by
  simp only [List.any_eq_true, decide_eq_true_eq]
  constructor
  · rintro ⟨⟨k', r', m⟩, hmem, rfl⟩
    have hlookup := AList.mem_lookup_iff.mpr hmem
    have hne : k' ≠ k := by
      rintro rfl
      rw [AList.lookup_erase] at hlookup
      cases hlookup
    rw [AList.lookup_erase_ne hne] at hlookup
    exact ⟨k', hne, by rw [reference, hlookup]; rfl⟩
  · rintro ⟨k', hne, hk'⟩
    obtain ⟨⟨r', m⟩, hlookup, rfl⟩ := Option.map_eq_some_iff.mp hk'
    rw [← AList.lookup_erase_ne hne] at hlookup
    exact ⟨⟨k', r', m⟩, AList.mem_lookup_iff.mp hlookup, rfl⟩

theorem next_setMark : (t.setMark k m).next = t.next := by
  unfold setMark
  split <;> rfl

theorem cells_setMark : (t.setMark k m).cells = t.cells := by
  unfold setMark
  split <;> rfl

theorem next_modify {f : α → α} : (t.modify k f).next = t.next := by
  unfold modify
  split <;> rfl

theorem cells_modify {f : α → α} : (t.modify k f).cells r =
    if t.reference k = some r then (t.cells r).map f else t.cells r := by
  unfold modify
  split
  · next r' hr' =>
    rw [hr']
    by_cases h : r' = r
    · subst h
      simp
    · simp [h, Ne.symm h]
  · next hnone => rw [hnone, if_neg (by simp)]

theorem next_remove : (t.remove k).next = t.next := by
  unfold remove
  split
  · dsimp only
    split <;> rfl
  · rfl

/-- Removing an entry leaves the values of the others. -/
theorem cells_remove (hne : k' ≠ k) (hr : t.reference k' = some r) :
    (t.remove k).cells r = t.cells r := by
  unfold remove
  split
  · next r' hr' =>
    dsimp only
    split
    · rfl
    · next hlast =>
      refine Function.update_of_ne ?_ ..
      rintro rfl
      exact hlast (any_erase_iff.mpr ⟨k', hne, hr⟩)
  · rfl

/-- A value that is left after a removal was there, and has another entry. -/
theorem of_cells_remove (h : (t.remove k).cells r = some a) :
    t.cells r = some a ∧ (t.reference k = some r → ∃ k' ≠ k, t.reference k' = some r) := by
  unfold remove at h
  split at h
  · next r' hr' =>
    dsimp only at h
    split at h
    · next hany =>
      refine ⟨h, fun hr => any_erase_iff.mp ?_⟩
      rw [hr'] at hr
      obtain rfl := Option.some.inj hr
      exact hany
    · have hother : r ≠ r' := by
        rintro rfl
        simp at h
      dsimp only at h
      rw [Function.update_of_ne hother] at h
      refine ⟨h, fun hr => ?_⟩
      rw [hr'] at hr
      exact absurd (Option.some.inj hr).symm hother
  · next hnone =>
    refine ⟨h, fun hr => ?_⟩
    rw [hnone] at hr
    cases hr

theorem Sound.add (h : t.Sound) (hk : t.reference k = none) (m : μ) (a : α) :
    (t.add k m a).Sound where
  cell := by
    intro k' r hr
    rw [reference_add] at hr
    split at hr
    · obtain rfl := Option.some.inj hr
      exact ⟨Nat.lt_succ_self _, a, Function.update_self ..⟩
    · obtain ⟨hlt, b, hb⟩ := h.cell hr
      exact ⟨Nat.lt_succ_of_lt hlt, b, (Function.update_of_ne (Nat.ne_of_lt hlt) ..).trans hb⟩
  used := by
    intro r b hb
    by_cases hr : r = t.next
    · exact ⟨k, by rw [reference_add, if_pos rfl, hr]⟩
    · replace hb : Function.update t.cells t.next (some a) r = some b := hb
      rw [Function.update_of_ne hr] at hb
      obtain ⟨k', hk'⟩ := h.used hb
      refine ⟨k', ?_⟩
      rw [reference_add, if_neg, hk']
      rintro rfl
      rw [hk] at hk'
      cases hk'

theorem Sound.share (h : t.Sound) (hk : t.reference k = none) (hk' : t.reference k' = some r)
    (m : μ) : (t.share k m r).Sound where
  cell := by
    intro k1 r1 hr
    rw [reference_share] at hr
    split at hr
    · obtain rfl := Option.some.inj hr
      exact h.cell hk'
    · exact h.cell hr
  used := by
    intro r1 b hb
    obtain ⟨k1, hk1⟩ := h.used hb
    refine ⟨k1, ?_⟩
    rw [reference_share, if_neg, hk1]
    rintro rfl
    rw [hk] at hk1
    cases hk1

theorem Sound.reject (h : t.Sound) (a : α) : (t.reject a).Sound := ⟨h.cell, h.used⟩

theorem Sound.setMark (h : t.Sound) (k : κ) (m : μ) : (t.setMark k m).Sound := by
  refine ⟨fun hr => ?_, fun hb => ?_⟩
  · rw [reference_setMark] at hr
    rw [next_setMark, cells_setMark]
    exact h.cell hr
  · rw [cells_setMark] at hb
    obtain ⟨k', hk'⟩ := h.used hb
    exact ⟨k', reference_setMark.trans hk'⟩

theorem Sound.modify (h : t.Sound) (k : κ) (f : α → α) : (t.modify k f).Sound := by
  have hcells (r : Nat) : (∃ a, (t.modify k f).cells r = some a) ↔ ∃ a, t.cells r = some a := by
    rw [cells_modify]
    split
    · simp
    · rfl
  refine ⟨fun hr => ?_, fun hb => ?_⟩
  · rw [reference_modify] at hr
    rw [next_modify, hcells]
    exact h.cell hr
  · obtain ⟨a, ha⟩ := (hcells _).mp ⟨_, hb⟩
    obtain ⟨k', hk'⟩ := h.used ha
    exact ⟨k', reference_modify.trans hk'⟩

theorem Sound.remove (h : t.Sound) (k : κ) : (t.remove k).Sound := by
  refine ⟨fun {k' r} hr => ?_, fun {r a} hb => ?_⟩
  · rw [reference_remove] at hr
    split at hr
    · cases hr
    · next hne =>
      rw [next_remove, cells_remove hne hr]
      exact h.cell hr
  · obtain ⟨hcell, hother⟩ := of_cells_remove hb
    obtain ⟨k1, hk1⟩ := h.used hcell
    by_cases hsame : k1 = k
    · subst hsame
      obtain ⟨k2, hne, hk2⟩ := hother hk1
      exact ⟨k2, by rw [reference_remove, if_neg hne, hk2]⟩
    · exact ⟨k1, by rw [reference_remove, if_neg hsame, hk1]⟩

/-! ## What an entry shows -/

theorem Sound.lookup_isSome (h : t.Sound) (k : κ) :
    (t.lookup k).isSome = (t.reference k).isSome := by
  unfold lookup
  cases hr : t.reference k with
  | none => rfl
  | some r =>
    obtain ⟨-, a, ha⟩ := h.cell hr
    simp [ha]

theorem Sound.lookup_add (h : t.Sound) :
    (t.add k m a).lookup k' = if k' = k then some a else t.lookup k' := by
  unfold lookup
  rw [reference_add]
  split
  · exact Function.update_self ..
  · cases hr : t.reference k' with
    | none => rfl
    | some r => exact Function.update_of_ne (Nat.ne_of_lt (h.cell hr).1) ..

theorem lookup_share : (t.share k m r).lookup k' = if k' = k then t.cells r else t.lookup k' := by
  unfold lookup
  rw [reference_share]
  split <;> rfl

theorem lookup_setMark : (t.setMark k m).lookup k' = t.lookup k' := by
  unfold lookup
  rw [reference_setMark]
  unfold setMark
  split <;> rfl

/-- A change of a value is seen through every entry that refers to it. -/
theorem lookup_modify {f : α → α} : (t.modify k f).lookup k' =
    if t.reference k' = t.reference k then (t.lookup k').map f else t.lookup k' := by
  unfold lookup
  rw [reference_modify]
  unfold modify
  cases hr : t.reference k with
  | none =>
    cases t.reference k' with
    | none => rfl
    | some r' => simp
  | some r =>
    cases t.reference k' with
    | none => simp
    | some r' =>
      by_cases h : r' = r
      · subst h
        simp
      · simp [h]

theorem lookup_remove :
    (t.remove k).lookup k' = if k' = k then none else t.lookup k' := by
  unfold lookup
  rw [reference_remove]
  split
  · rfl
  · next hne =>
    cases hr : t.reference k' with
    | none => rfl
    | some r => exact cells_remove hne hr

/-! ## Accounts -/

/-- What was given is held or released, once each. -/
def Accounts (π : α → β) (given : List β) (t : SharedTable κ μ α) : Prop :=
  ((t.released ++ t.held).map π).Perm given

variable {π : α → β} {given : List β}

theorem Accounts.empty (π : α → β) : Accounts π [] ({} : SharedTable κ μ α) := .refl _

theorem held_add : (t.add k m a).held = t.held ++ [a] := by
  unfold held add
  rw [List.range_succ, List.filterMap_append]
  congr 1
  · refine List.filterMap_congr fun r hr => ?_
    exact Function.update_of_ne (Nat.ne_of_lt (List.mem_range.mp hr)) ..
  · simp

theorem Accounts.add (h : Accounts π given t) (k : κ) (m : μ) (a : α) :
    Accounts π (given ++ [π a]) (t.add k m a) := by
  unfold Accounts
  rw [held_add, ← List.append_assoc, List.map_append]
  exact h.append (.refl _)

theorem Accounts.reject (h : Accounts π given t) (a : α) :
    Accounts π (given ++ [π a]) (t.reject a) := by
  show (((t.released ++ [a]) ++ t.held).map π).Perm _
  rw [List.append_assoc, List.map_append]
  refine (List.Perm.append_left _ (List.perm_append_comm.map π)).trans ?_
  rw [← List.map_append, ← List.append_assoc, List.map_append]
  exact h.append (.refl _)

theorem Accounts.share (h : Accounts π given t) (k : κ) (m : μ) (r : Nat) :
    Accounts π given (t.share k m r) := h

theorem Accounts.setMark (h : Accounts π given t) (k : κ) (m : μ) :
    Accounts π given (t.setMark k m) := by
  unfold SharedTable.setMark
  split <;> exact h

/-- A change of a value that leaves what is counted. -/
theorem Accounts.modify (h : Accounts π given t) (k : κ) {f : α → α} (hf : ∀ a, π (f a) = π a) :
    Accounts π given (t.modify k f) := by
  unfold SharedTable.modify
  split
  · next r hr =>
    have hheld : ((List.range t.next).filterMap (Function.update t.cells r
        ((t.cells r).map f))).map π = t.held.map π := by
      unfold held
      rw [List.map_filterMap, List.map_filterMap]
      refine List.filterMap_congr fun r' _ => ?_
      by_cases hsame : r' = r
      · subst hsame
        rw [Function.update_self, Option.map_map]
        cases t.cells r' with
        | none => rfl
        | some a => exact congrArg some (hf a)
      · rw [Function.update_of_ne hsame]
    show ((t.released ++ (List.range t.next).filterMap _).map π).Perm given
    rw [List.map_append, hheld, ← List.map_append]
    exact h
  · exact h

/-- Taking one value out of those that are held. -/
theorem perm_filterMap_update {cells : Nat → Option α} {r n : Nat} (hr : r < n)
    (ha : cells r = some a) : ((List.range n).filterMap cells).Perm
      (a :: (List.range n).filterMap (Function.update cells r none)) := by
  induction n with
  | zero => omega
  | succ n ih =>
    rw [List.range_succ, List.filterMap_append, List.filterMap_append]
    by_cases hlast : r = n
    · subst hlast
      have hsame : (List.range r).filterMap (Function.update cells r none) =
          (List.range r).filterMap cells := by
        refine List.filterMap_congr fun r' hr' => ?_
        exact Function.update_of_ne (Nat.ne_of_lt (List.mem_range.mp hr')) ..
      rw [hsame]
      simp only [List.filterMap_cons, ha, List.filterMap_nil, Function.update_self, List.append_nil]
      exact List.perm_append_comm
    · have hkept : [n].filterMap (Function.update cells r none) = [n].filterMap cells := by
        refine List.filterMap_congr fun r' hr' => ?_
        obtain rfl := List.mem_singleton.mp hr'
        exact Function.update_of_ne (Ne.symm hlast) ..
      rw [hkept, ← List.cons_append]
      exact (ih (by omega)).append (.refl _)

theorem Accounts.remove (h : Accounts π given t) (ht : t.Sound) (k : κ) :
    Accounts π given (t.remove k) := by
  unfold SharedTable.remove
  split
  · next r hr =>
    obtain ⟨hlt, a, ha⟩ := ht.cell hr
    dsimp only
    split
    · exact h
    · show (((t.released ++ (t.cells r).toList) ++
        (List.range t.next).filterMap (Function.update t.cells r none)).map π).Perm given
      rw [ha, List.append_assoc]
      refine List.Perm.trans (List.Perm.map π (List.Perm.append_left _ ?_)) h
      exact (perm_filterMap_update hlt ha).symm
  · exact h

end SharedTable

end Rosa
