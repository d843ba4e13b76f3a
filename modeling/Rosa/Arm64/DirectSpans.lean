import Rosa.Arm64.DirectRead

/-!
# Spans of direct accesses

A self loop that steps an induction register and compares it with a constant may check its
direct accesses once : for loads `validateDirectGuestReadSpan` is called with the address of
the first load of the group, for a store the emitted code compares the last address with the
view. Afterwards the host pointer is stepped along with no check.

The loads belong to a loop that goes on while the induction register is not the limit, so the
helper asks that the step divides the distance. The store belongs to a loop that goes on while
the register is below the limit, and the last step may pass the limit : the guard asks that it
does not wrap.
-/

namespace Rosa.Arm64

open Instruction

/-! ## Loops -/

/-- The loop steps its induction register at the end of an iteration, goes on while the new
value passes the test, and ends after so many iterations. -/
inductive EndsAfter (step : BitVec 64) (goesOn : BitVec 64 → Bool) : BitVec 64 → Nat → Prop
  | last {i : BitVec 64} (h : goesOn (i + step) = false) : EndsAfter step goesOn i 1
  | next {i : BitVec 64} {n : Nat} (h : goesOn (i + step) = true)
      (rest : EndsAfter step goesOn (i + step) n) : EndsAfter step goesOn i (n + 1)

/-- A loop with a limit makes the iterations that start below the limit. -/
def EndsAtLimit (induction step limit : BitVec 64) (goesOn : BitVec 64 → Bool) : Prop :=
  ∃ n, EndsAfter step goesOn induction n ∧
    ∀ k, k < n ↔ induction.toNat + k * step.toNat < limit.toNat

variable {induction step limit : BitVec 64} {goesOn : BitVec 64 → Bool}

/-- The induction register reaches the first value that is not below the limit without a
wrap, and the test tells the values before from this one. -/
theorem endsAfter_of_stops : ∀ {n : Nat} {i : BitVec 64},
    i.toNat + (n + 1) * step.toNat < 2 ^ 64 →
    (∀ k, 1 ≤ k → k ≤ n → goesOn (BitVec.ofNat 64 (i.toNat + k * step.toNat)) = true) →
    goesOn (BitVec.ofNat 64 (i.toNat + (n + 1) * step.toNat)) = false →
    EndsAfter step goesOn i (n + 1)
  | 0, i, _, _, hstop => by
    refine .last ?_
    have hi : i + step = BitVec.ofNat 64 (i.toNat + (0 + 1) * step.toNat) := by
      apply BitVec.eq_of_toNat_eq
      simp
    rw [hi]
    exact hstop
  | n + 1, i, hroom, hgo, hstop => by
    have hmul : (n + 1 + 1) * step.toNat = step.toNat + (n + 1) * step.toNat := by ring
    have hi : i + step = BitVec.ofNat 64 (i.toNat + 1 * step.toNat) := by
      apply BitVec.eq_of_toNat_eq
      simp
    have hnext : (i + step).toNat = i.toNat + step.toNat := by
      rw [BitVec.toNat_add]
      omega
    refine .next (hi ▸ hgo 1 le_rfl (Nat.le_add_left _ _)) (endsAfter_of_stops ?_ ?_ ?_)
    · omega
    · intro k h1 hk
      have hk' : k * step.toNat + step.toNat = (k + 1) * step.toNat := by ring
      have := hgo (k + 1) (by omega) (by omega)
      rwa [hnext, show i.toNat + step.toNat + k * step.toNat =
        i.toNat + (k + 1) * step.toNat by omega]
    · rwa [hnext, show i.toNat + step.toNat + (n + 1) * step.toNat =
        i.toNat + (n + 1 + 1) * step.toNat by omega]

/-- The number of iterations after the first. -/
def stepsBelow (induction step limit : BitVec 64) : Nat :=
  (limit.toNat - 1 - induction.toNat) / step.toNat

theorem le_stepsBelow_iff (hstep : step ≠ 0) (hlt : induction.toNat < limit.toNat) (k : Nat) :
    k ≤ stepsBelow induction step limit ↔ induction.toNat + k * step.toNat < limit.toNat := by
  have hpos : 0 < step.toNat :=
    Nat.pos_of_ne_zero fun hzero => hstep (BitVec.eq_of_toNat_eq hzero)
  rw [stepsBelow, Nat.le_div_iff_mul_le hpos]
  omega

theorem endsAtLimit_of_stops (hstep : step ≠ 0) (hlt : induction.toNat < limit.toNat)
    (hroom : induction.toNat + (stepsBelow induction step limit + 1) * step.toNat < 2 ^ 64)
    (hgo : ∀ i : BitVec 64, i.toNat < limit.toNat → goesOn i = true)
    (hstop : goesOn (BitVec.ofNat 64
      (induction.toNat + (stepsBelow induction step limit + 1) * step.toNat)) = false) :
    EndsAtLimit induction step limit goesOn := by
  have hbelow := le_stepsBelow_iff hstep hlt
  refine ⟨_, endsAfter_of_stops hroom (fun k _ hk => hgo _ ?_) hstop, fun k => ?_⟩
  · have hk' := (hbelow k).mp hk
    have := limit.isLt
    rw [BitVec.toNat_ofNat, Nat.mod_eq_of_lt (by omega)]
    exact hk'
  · rw [← hbelow k]
    exact Nat.lt_succ_iff

/-- What a checked span promises : every byte of every iteration that starts below the limit
is in the view, and the loop makes these iterations. -/
structure SpanCovered (base size address induction step limit : BitVec 64)
    (maximumOffset : Nat) (goesOn : BitVec 64 → Bool) : Prop where
  inside : ∀ k j, induction.toNat + k * step.toNat < limit.toNat → j ≤ maximumOffset →
    base.toNat ≤ address.toNat + k * step.toNat + j ∧
      address.toNat + k * step.toNat + j < base.toNat + size.toNat ∧
      address.toNat + k * step.toNat + j < 2 ^ 64
  ends : EndsAtLimit induction step limit goesOn

/-! ## Loads -/

/-- The fields of the `DirectGuestMemoryCache` that the helper reads; the pointer may be null. -/
structure DirectReadCache where
  bytes : BitVec 64
  base : BitVec 64
  size : BitVec 64

/-- `validateDirectGuestReadSpan`. -/
def validateDirectGuestReadSpan (context : Option DirectReadCache)
    (address induction step limit maximumOffset : BitVec 64) : Option (BitVec 64) :=
  match context with
  | none => none
  | some cache =>
    if step = 0 ∨ limit ≤ induction then none
    else if cache.bytes = 0 ∨ address < cache.base ∨ cache.size ≤ address - cache.base then none
    else
      let remaining := limit - induction
      if remaining < step ∨ remaining % step ≠ 0 then none
      else
        let distanceToLastIteration := remaining - step
        if BitVec.allOnes 64 - distanceToLastIteration < address then none
        else
          let lastAddress := address + distanceToLastIteration
          if BitVec.allOnes 64 - maximumOffset < lastAddress then none
          else
            let lastByte := lastAddress + maximumOffset
            if lastByte < cache.base ∨ cache.size ≤ lastByte - cache.base then none
            else some (cache.bytes + (address - cache.base))

/-- What the helper has checked when it returns a pointer. -/
structure ReadSpanChecked (cache : DirectReadCache)
    (address induction step limit maximumOffset : BitVec 64) : Prop where
  moves : step ≠ 0
  below : induction.toNat < limit.toNat
  first : cache.base.toNat ≤ address.toNat
  divides : step.toNat ∣ limit.toNat - induction.toNat
  last : address.toNat + (limit.toNat - induction.toNat - step.toNat) + maximumOffset.toNat <
    2 ^ 64
  inside : address.toNat + (limit.toNat - induction.toNat - step.toNat) + maximumOffset.toNat <
    cache.base.toNat + cache.size.toNat

theorem toNat_allOnes_sub (x : BitVec 64) :
    (BitVec.allOnes 64 - x).toNat = 2 ^ 64 - 1 - x.toNat := by
  have hx := x.isLt
  have hle : x ≤ BitVec.allOnes 64 := by
    rw [BitVec.le_def, BitVec.toNat_allOnes]
    omega
  rw [BitVec.toNat_sub_of_le hle, BitVec.toNat_allOnes]

theorem validateDirectGuestReadSpan_checked {cache : DirectReadCache}
    {address maximumOffset pointer : BitVec 64}
    (h : validateDirectGuestReadSpan (some cache) address induction step limit maximumOffset =
      some pointer) : ReadSpanChecked cache address induction step limit maximumOffset := by
  unfold validateDirectGuestReadSpan at h
  dsimp only at h
  split at h
  · cases h
  next hloop =>
    split at h
    · cases h
    next hfirst =>
      split at h
      · cases h
      next hdivides =>
        split at h
        · cases h
        next haddress =>
          split at h
          · cases h
          next hlast =>
            split at h
            · cases h
            next hbyte =>
              simp only [not_or, BitVec.not_le, BitVec.not_lt, not_not]
                at hloop hfirst hdivides haddress hlast hbyte
              obtain ⟨hmoves, hbelow⟩ := hloop
              have hbelow' : induction.toNat < limit.toNat := hbelow
              have hremaining : (limit - induction).toNat = limit.toNat - induction.toNat :=
                BitVec.toNat_sub_of_le (BitVec.le_of_lt hbelow)
              have hdistance : (limit - induction - step).toNat =
                  limit.toNat - induction.toNat - step.toNat := by
                rw [BitVec.toNat_sub_of_le hdivides.1, hremaining]
              have haddress' := BitVec.le_def.mp haddress
              rw [toNat_allOnes_sub, hdistance] at haddress'
              have hsum : (address + (limit - induction - step)).toNat =
                  address.toNat + (limit.toNat - induction.toNat - step.toNat) := by
                rw [BitVec.toNat_add_of_lt, hdistance]
                rw [hdistance]
                omega
              have hlast' := BitVec.le_def.mp hlast
              rw [toNat_allOnes_sub, hsum] at hlast'
              have hend : (address + (limit - induction - step) + maximumOffset).toNat =
                  address.toNat + (limit.toNat - induction.toNat - step.toNat) +
                    maximumOffset.toNat := by
                rw [BitVec.toNat_add_of_lt, hsum]
                rw [hsum]
                omega
              have hbase := BitVec.le_def.mp hbyte.1
              have hbyte' := BitVec.lt_def.mp hbyte.2
              rw [BitVec.toNat_sub_of_le hbyte.1, hend] at hbyte'
              rw [hend] at hbase
              have hlimit := limit.isLt
              refine ⟨hmoves, hbelow', hfirst.2.1, ?_, by omega, by omega⟩
              have hmod := congrArg BitVec.toNat hdivides.2
              rw [BitVec.toNat_umod, hremaining] at hmod
              exact Nat.dvd_of_mod_eq_zero hmod

theorem ReadSpanChecked.spanCovered {cache : DirectReadCache} {address maximumOffset : BitVec 64}
    (h : ReadSpanChecked cache address induction step limit maximumOffset) :
    SpanCovered cache.base cache.size address induction step limit maximumOffset.toNat
      fun i => i != limit := by
  have hbelow := h.below
  have hpos : 0 < step.toNat :=
    Nat.pos_of_ne_zero fun hzero => h.moves (BitVec.eq_of_toNat_eq hzero)
  obtain ⟨n, hn⟩ := h.divides
  -- the last iteration starts one step before the limit
  have hn0 : n ≠ 0 := by
    rintro rfl
    omega
  obtain ⟨n, rfl⟩ := Nat.exists_eq_add_one_of_ne_zero hn0
  have hmul : step.toNat * (n + 1) = n * step.toNat + step.toNat := by ring
  have hsucc : (n + 1) * step.toNat = n * step.toNat + step.toNat := by ring
  have hsteps : stepsBelow induction step limit = n := by
    refine le_antisymm ?_ ((le_stepsBelow_iff h.moves hbelow n).mpr (by omega))
    have hle := (le_stepsBelow_iff h.moves hbelow _).mp (le_refl (stepsBelow induction step limit))
    have hlt : stepsBelow induction step limit * step.toNat < (n + 1) * step.toNat := by omega
    exact Nat.lt_succ_iff.mp (Nat.lt_of_mul_lt_mul_right hlt)
  constructor
  · intro k j hk hj
    have hkn : k ≤ n := hsteps ▸ (le_stepsBelow_iff h.moves hbelow k).mpr hk
    have hkn' : k * step.toNat ≤ n * step.toNat := Nat.mul_le_mul_right _ hkn
    have hfirst := h.first
    have hlast := h.last
    have hinside := h.inside
    refine ⟨?_, ?_, ?_⟩ <;> omega
  · have hl := limit.isLt
    refine endsAtLimit_of_stops h.moves hbelow ?_ (fun i hi => ?_) ?_
    · rw [hsteps]
      omega
    · refine bne_iff_ne.mpr ?_
      rintro rfl
      exact lt_irrefl _ hi
    · have hlimit : induction.toNat + (n + 1) * step.toNat = limit.toNat := by omega
      rw [hsteps, hlimit, BitVec.ofNat_toNat, BitVec.setWidth_eq]
      exact bne_self_eq_false limit

/-! ## The store -/

/-- The label of a span that is not admitted. -/
def rejected : Label := 0

/-- The label behind the guard. -/
def guarded : Label := 1

/-- The checks of the guard, one after the other. -/
def writeSpanChecks (address induction offset step : ValueRegister) (limit : BitVec 64) :
    List (List Instruction) :=
  [[cbz 20 rejected],
    [compareZero step.1, bConditional .equal rejected],
    [movImmediate 16 limit, compare induction.1 16,
      bConditional .unsignedHigherOrSame rejected],
    [movImmediate 17 (BitVec.allOnes 64 - (limit - 1)), compare step.1 17,
      bConditional .unsignedHigher rejected],
    [movImmediate 17 (limit - 1), add 16 offset.1 17, compare 16 offset.1,
      bConditional .unsignedLower rejected],
    [sub 17 16 21, compare 17 22, bConditional .unsignedHigherOrSame rejected],
    [sub 17 address.1 21, compare 17 22, bConditional .unsignedHigherOrSame rejected]]

/-- The end of the guard. -/
def writeSpanResult (step : ValueRegister) : List Instruction :=
  [add 3 20 17, add 3 3 step.1, movImmediate 4 1, b guarded, bind rejected, movImmediate 4 0,
    bind guarded]

/-- The code after the call of `storeGuest8` in a block with a `DirectWriteSpan` : it leaves in
`x4` whether the later stores go unchecked, and in `x3` the host byte of the next one. -/
def writeSpanGuard (address induction offset step : ValueRegister) (limit : BitVec 64) :
    List Instruction :=
  (writeSpanChecks address induction offset step limit).flatten ++ writeSpanResult step

/-- The checks bind no label. -/
def Unlabelled (checks : List (List Instruction)) : Prop :=
  ∀ check ∈ checks, ∀ i ∈ check, i ≠ bind rejected

theorem foldl_advance_rejected {code : List Instruction} (hcode : ∀ i ∈ code, i ≠ bind rejected)
    (h : Host) : code.foldl advance (h, some rejected) = (h, some rejected) := by
  induction code with
  | nil => rfl
  | cons i code ih =>
    have hi : advance (h, some rejected) i = (h, some rejected) := by
      have hne := hcode i List.mem_cons_self
      cases i with
      | bind label =>
        have hlabel : label ≠ rejected := fun heq => hne (heq ▸ rfl)
        simp [advance, hlabel]
      | _ => rfl
    rw [List.foldl_cons, hi]
    exact ih fun j hj => hcode j (List.mem_cons_of_mem _ hj)

/-- A rejected span leaves zero in `x4`. -/
theorem rejects_append {checks : List (List Instruction)} (hchecks : Unlabelled checks)
    (step : ValueRegister) (h : Host) :
    ((checks.flatten ++ writeSpanResult step).foldl advance (h, some rejected)).1.x 4 = 0 := by
  have hcode : ∀ i ∈ checks.flatten, i ≠ bind rejected := by
    intro i hi
    obtain ⟨check, hcheck, hi⟩ := List.mem_flatten.mp hi
    exact hchecks check hcheck i hi
  rw [List.foldl_append, foldl_advance_rejected hcode]
  simp [writeSpanResult, advance, execute, rejected, guarded]

/-- A check that ends in a branch to `rejected` was passed if the span was admitted. -/
theorem passed_of_admits {check : List Instruction} {checks : List (List Instruction)}
    {step : ValueRegister} {h h' : Host} (fails : Bool) (hchecks : Unlabelled (check :: checks))
    (hrun : run check h = (h', if fails then some rejected else none))
    (hadmits : (run ((check :: checks).flatten ++ writeSpanResult step) h).1.x 4 = 1) :
    fails = false ∧ Unlabelled checks ∧
      (run (checks.flatten ++ writeSpanResult step) h').1.x 4 = 1 := by
  have hrest : Unlabelled checks := fun c hc => hchecks c (List.mem_cons_of_mem _ hc)
  rw [List.flatten_cons, List.append_assoc] at hadmits
  cases fails with
  | false =>
    rw [run_append hrun] at hadmits
    exact ⟨rfl, hrest, hadmits⟩
  | true =>
    rw [run_append_left hrun, rejects_append hrest] at hadmits
    exact absurd hadmits (by decide)

theorem holds_unsignedHigher (l r : BitVec 64) :
    BranchCondition.unsignedHigher.holds (Nzcv.ofCompare l r) = r.ult l := by
  have hzero : (l - r == 0) = decide (l.toNat = r.toNat) := by
    rw [Bool.eq_iff_iff, beq_iff_eq, decide_eq_true_eq, BitVec.toNat_inj]
    constructor <;> intro h <;> bv_omega
  rw [Bool.eq_iff_iff]
  simp only [BranchCondition.holds, Nzcv.ofCompare, BitVec.ult, hzero, Bool.and_eq_true,
    Bool.not_eq_true', decide_eq_false_iff_not, decide_eq_true_eq]
  omega

/-- What the guard has checked when it admits the span. -/
structure WriteSpanChecked (view : DirectView) (address induction offset step limit : BitVec 64) :
    Prop where
  moves : step ≠ 0
  below : induction.ult limit = true
  noWrap : (BitVec.allOnes 64 - (limit - 1)).ult step = false
  fits : (offset + (limit - 1)).ult offset = false
  last : (offset + (limit - 1) - view.base).ult view.size = true
  first : (address - view.base).ult view.size = true

theorem writeSpanGuard_checked {view : DirectView} {h : Host} (hp : Pinned view h)
    {address induction offset step : ValueRegister} {limit : BitVec 64}
    (hadmits : (run (writeSpanGuard address induction offset step limit) h).1.x 4 = 1) :
    WriteSpanChecked view (h.x address.1) (h.x induction.1) (h.x offset.1) (h.x step.1) limit := by
  have hbase := hp.base
  have hsize := hp.size
  have ha16 : address.1 ≠ 16 := address.ne_scratch (by decide)
  have hi16 : induction.1 ≠ 16 := induction.ne_scratch (by decide)
  have ho16 : offset.1 ≠ 16 := offset.ne_scratch (by decide)
  have hs16 : step.1 ≠ 16 := step.ne_scratch (by decide)
  have ha17 : address.1 ≠ 17 := address.ne_scratch (by decide)
  have ho17 : offset.1 ≠ 17 := offset.ne_scratch (by decide)
  have hs17 : step.1 ≠ 17 := step.ne_scratch (by decide)
  have hplain : Unlabelled (writeSpanChecks address induction offset step limit) := by
    simp [Unlabelled, writeSpanChecks]
  unfold writeSpanGuard at hadmits
  unfold writeSpanChecks at hplain hadmits
  obtain ⟨hview, hplain, h1⟩ := passed_of_admits (h.x 20 == 0) hplain
    (by simp only [run, List.foldl, advance, execute]; rfl) hadmits
  obtain ⟨hmoves, hplain, h2⟩ := passed_of_admits (h.x step.1 == 0) hplain
    (by simp [run, advance, execute, Nzcv.ofCompare, BranchCondition.holds]; rfl) h1
  obtain ⟨hbelow, hplain, h3⟩ := passed_of_admits (!(h.x induction.1).ult limit) hplain
    (by simp [run, advance, execute, Nzcv.ofCompare, BranchCondition.holds, hi16]; rfl) h2
  obtain ⟨hwrap, hplain, h4⟩ := passed_of_admits
    ((BitVec.allOnes 64 - (limit - 1)).ult (h.x step.1)) hplain
    (by simp [run, advance, execute, holds_unsignedHigher, hs16, hs17]; rfl) h3
  obtain ⟨hfits, hplain, h5⟩ := passed_of_admits
    ((h.x offset.1 + (limit - 1)).ult (h.x offset.1)) hplain
    (by simp [run, advance, execute, Nzcv.ofCompare, BranchCondition.holds, ho16, ho17]; rfl) h4
  obtain ⟨hlast, hplain, h6⟩ := passed_of_admits
    (!(h.x offset.1 + (limit - 1) - view.base).ult view.size) hplain
    (by simp [run, advance, execute, Nzcv.ofCompare, BranchCondition.holds, hbase, hsize]; rfl) h5
  obtain ⟨hfirst, -, -⟩ := passed_of_admits (!(h.x address.1 - view.base).ult view.size) hplain
    (by simp [run, advance, execute, Nzcv.ofCompare, BranchCondition.holds, hbase, hsize, ha16,
      ha17]; rfl) h6
  exact ⟨by simpa using hmoves, by simpa using hbelow, hwrap, hfits, by simpa using hlast,
    by simpa using hfirst⟩

theorem WriteSpanChecked.spanCovered {view : DirectView}
    {address induction offset step limit : BitVec 64}
    (h : WriteSpanChecked view address induction offset step limit)
    (hsum : address = induction + offset) :
    SpanCovered view.base view.size address induction step limit 0 fun i => i.ult limit := by
  have hbelow : induction.toNat < limit.toNat := by simpa [BitVec.ult] using h.below
  have hpred : (limit - 1).toNat = limit.toNat - 1 := by
    refine BitVec.toNat_sub_of_le ?_
    rw [BitVec.le_def]
    exact Nat.one_le_iff_ne_zero.mpr (by omega)
  have hwrap : step.toNat ≤ 2 ^ 64 - limit.toNat := by
    have hw := h.noWrap
    simp only [BitVec.ult, decide_eq_false_iff_not, toNat_allOnes_sub, hpred] at hw
    omega
  have ho := offset.isLt
  have hfits : offset.toNat + (limit.toNat - 1) < 2 ^ 64 := by
    have hf := h.fits
    simp only [BitVec.ult, decide_eq_false_iff_not, BitVec.toNat_add, hpred] at hf
    have := limit.isLt
    omega
  have haddress : address.toNat = induction.toNat + offset.toNat := by
    rw [hsum, BitVec.toNat_add_of_lt]
    omega
  have hend : (offset + (limit - 1)).toNat = offset.toNat + (limit.toNat - 1) := by
    rw [BitVec.toNat_add_of_lt, hpred]
    rw [hpred]
    exact hfits
  have hlast := view.holds_of_ult h.last
  have hfirst := view.holds_of_ult h.first
  simp only [DirectView.Holds, hend, haddress, Nat.add_zero] at hlast hfirst
  constructor
  · intro k j hk hj
    have hplaced := view.placed
    refine ⟨?_, ?_, ?_⟩ <;> omega
  · have hsteps := (le_stepsBelow_iff h.moves hbelow _).mp (le_refl (stepsBelow induction step limit))
    have hpast : ¬induction.toNat + (stepsBelow induction step limit + 1) * step.toNat <
        limit.toNat := by
      rw [← le_stepsBelow_iff h.moves hbelow]
      exact Nat.not_succ_le_self _
    rw [Nat.succ_mul] at hpast
    have hroom : induction.toNat + (stepsBelow induction step limit + 1) * step.toNat < 2 ^ 64 := by
      rw [Nat.succ_mul]
      omega
    refine endsAtLimit_of_stops h.moves hbelow hroom (fun i hi => by simpa [BitVec.ult] using hi) ?_
    simp only [BitVec.ult, BitVec.toNat_ofNat, Nat.mod_eq_of_lt hroom, decide_eq_false_iff_not]
    rw [Nat.succ_mul]
    exact hpast

/-- A span that was checked covers the loop : loads in a loop that goes on until it meets the
limit, and the store in a loop that goes on below the limit. The address of the store is the sum
of the induction register and of the register that does not change. -/
theorem spans_covered :
    (∀ (cache : DirectReadCache) (address induction step limit maximumOffset pointer : BitVec 64),
      validateDirectGuestReadSpan (some cache) address induction step limit maximumOffset =
          some pointer →
        SpanCovered cache.base cache.size address induction step limit maximumOffset.toNat
          fun i => i != limit) ∧
    ∀ (view : DirectView) (h : Host) (address induction offset step : ValueRegister)
        (limit : BitVec 64), Pinned view h → h.x address.1 = h.x induction.1 + h.x offset.1 →
      (run (writeSpanGuard address induction offset step limit) h).1.x 4 = 1 →
        SpanCovered view.base view.size (h.x address.1) (h.x induction.1) (h.x step.1) limit 0
          fun i => i.ult limit :=
  ⟨fun _ _ _ _ _ _ _ h => (validateDirectGuestReadSpan_checked h).spanCovered,
    fun _ _ _ _ _ _ _ hp hsum hadmits => (writeSpanGuard_checked hp hadmits).spanCovered hsum⟩

/-- Two loads of a loop with three iterations on a page. -/
theorem spans_covered_threeLoads :
    SpanCovered 0x1000 0x1000 0x1FF0 0 4 12 7 fun i => i != 12 :=
  spans_covered.1 ⟨1, 0x1000, 0x1000⟩ 0x1FF0 0 4 12 7 _ rfl

/-- A host with `firstPage` pinned that steps from zero by two, and stores from `0x1000` on. -/
def storingByTwo : Host where
  x r := match r with
    | 8 | 10 | 21 | 22 => 0x1000
    | 20 => 1
    | 26 => 2
    | _ => 0
  nzcv := {}
  rflags := 0
  bytes _ := 0

/-- The store loop passes its limit : a loop that ends where the register meets the limit would
not make these iterations. -/
theorem not_meetsLimit_storingByTwo :
    (run (writeSpanGuard ⟨8, by decide⟩ ⟨9, by decide⟩ ⟨10, by decide⟩ ⟨26, by decide⟩ 3)
        storingByTwo).1.x 4 = 1 ∧
      storingByTwo.x 8 = storingByTwo.x 9 + storingByTwo.x 10 ∧
      ¬SpanCovered firstPage.base firstPage.size (storingByTwo.x 8) (storingByTwo.x 9)
        (storingByTwo.x 26) 3 0 fun i => i != 3 := by
  refine ⟨by decide, by decide, fun h => ?_⟩
  obtain ⟨n, hends, hn⟩ := h.ends
  have hlow : 1 < n := (hn 1).mpr (by decide)
  have hhigh : ¬2 < n := fun h2 => absurd ((hn 2).mp h2) (by decide)
  obtain rfl : n = 2 := by omega
  cases hends with
  | next _ rest =>
    cases rest with
    | last hstop => exact absurd hstop (by decide)
    | next _ rest => cases rest

end Rosa.Arm64
