import Mathlib.Data.BitVec

/-!
# Lanes of bit vectors

A vector of `n` bits as lanes of width `w`, the least significant first. Two vectors with the
same lanes are equal, so an operation on lanes is given by what it does to each of them. Code
that has a vector in two halves of 64 bits collects the lanes of a result with shifts and `or`;
`lane_collect` says which lanes it gets.
-/

namespace Rosa

variable {n w : Nat}

/-- Lane `i` of width `w`. -/
def lane (w i : Nat) (v : BitVec n) : BitVec w := v.extractLsb' (i * w) w

/-- The vector with the lanes `f`. -/
def ofLanes (n w : Nat) (f : Nat → BitVec w) : BitVec n :=
  (BitVec.iunfoldr (fun (j : Fin n) u => (u, (f (j / w)).getLsbD (j % w))) ()).2

theorem getLsbD_lane (i k : Nat) (v : BitVec n) :
    (lane w i v).getLsbD k = (decide (k < w) && v.getLsbD (i * w + k)) := by
  simp [lane]

theorem getLsbD_ofLanes (f : Nat → BitVec w) (k : Nat) :
    (ofLanes n w f).getLsbD k = (decide (k < n) && (f (k / w)).getLsbD (k % w)) := by
  by_cases h : k < n
  · have hbit := BitVec.iunfoldr_getLsbD
      (f := fun (j : Fin n) u => (u, (f (j / w)).getLsbD (j % w))) (fun _ => ()) ⟨k, h⟩ fun _ => rfl
    rw [ofLanes, hbit]
    simp [h]
  · simp [h, BitVec.getLsbD_of_ge _ _ (Nat.le_of_not_lt h)]

theorem lane_ofLanes {f : Nat → BitVec w} {i : Nat} (hi : (i + 1) * w ≤ n) :
    lane w i (ofLanes n w f) = f i := by
  refine BitVec.eq_of_getLsbD_eq fun k hk => ?_
  have hlt : i * w + k < n := by
    have : (i + 1) * w = i * w + w := by rw [Nat.add_mul, Nat.one_mul]
    omega
  have hdiv : (i * w + k) / w = i := by
    rw [Nat.mul_comm, Nat.mul_add_div (by omega), Nat.div_eq_of_lt hk, Nat.add_zero]
  have hmod : (i * w + k) % w = k := by
    rw [Nat.mul_comm, Nat.mul_add_mod, Nat.mod_eq_of_lt hk]
  rw [getLsbD_lane, getLsbD_ofLanes, hdiv, hmod]
  simp [hk, hlt]

/-- A vector is given by its lanes. -/
theorem eq_of_lanes {count : Nat} {a b : BitVec n} (hn : n = count * w)
    (h : ∀ i < count, lane w i a = lane w i b) : a = b := by
  refine BitVec.eq_of_getLsbD_eq fun k hk => ?_
  have hw : 0 < w := by
    by_contra hzero
    obtain rfl : w = 0 := by omega
    omega
  have hindex : k / w < count := by
    rw [hn, Nat.mul_comm] at hk
    exact Nat.div_lt_of_lt_mul hk
  have hsplit : k / w * w + k % w = k := by rw [Nat.mul_comm, Nat.div_add_mod]
  have hbit (v : BitVec n) : (lane w (k / w) v).getLsbD (k % w) = v.getLsbD k := by
    rw [getLsbD_lane, hsplit]
    simp [Nat.mod_lt _ hw]
  rw [← hbit a, ← hbit b, h _ hindex]

theorem ofLanes_eq_iff {count : Nat} {f : Nat → BitVec w} {a : BitVec n} (hn : n = count * w)
    (h : ∀ i < count, lane w i a = f i) : a = ofLanes n w f := by
  refine eq_of_lanes hn fun i hi => ?_
  rw [h i hi, lane_ofLanes]
  rw [hn]
  exact Nat.mul_le_mul_right w hi

/-! ## Two halves -/

/-- The vector of two halves, the low one first. -/
def joined (v : BitVec 64 × BitVec 64) : BitVec 128 := v.2 ++ v.1

/-- The halves of a vector. -/
def halves (v : BitVec 128) : BitVec 64 × BitVec 64 := (v.setWidth 64, (v >>> 64).setWidth 64)

theorem getLsbD_joined (v : BitVec 64 × BitVec 64) (k : Nat) :
    (joined v).getLsbD k = if k < 64 then v.1.getLsbD k else v.2.getLsbD (k - 64) := by
  unfold joined
  rw [BitVec.getLsbD_append]

theorem halves_joined (v : BitVec 64 × BitVec 64) : halves (joined v) = v := by
  refine Prod.ext (BitVec.eq_of_getLsbD_eq fun k hk => ?_) (BitVec.eq_of_getLsbD_eq fun k hk => ?_)
  · simp [halves, getLsbD_joined, hk]
  · simp [halves, getLsbD_joined, hk]

theorem joined_injective {v u : BitVec 64 × BitVec 64} (h : joined v = joined u) : v = u := by
  rw [← halves_joined v, h, halves_joined]

/-- The half of lane `i`, with `count` lanes in each half. -/
def halfOf (count i : Nat) (v : BitVec 64 × BitVec 64) : BitVec 64 :=
  if i < count then v.1 else v.2

/-- The bits of a lane are in its half. -/
theorem lane_bit_lt {count a k : Nat} (hw : count * w = 64) (ha : a < count) (hk : k < w) :
    a * w + k < 64 := by
  have := Nat.mul_le_mul_right w (Nat.succ_le_of_lt ha)
  rw [Nat.succ_mul] at this
  omega

/-- A lane, read from its half. -/
theorem lane_halfOf {count i : Nat} (hw : count * w = 64) (hi : i < 2 * count)
    (v : BitVec 64 × BitVec 64) :
    (halfOf count i v >>> (i % count * w)).setWidth w = lane w i (joined v) := by
  refine BitVec.eq_of_getLsbD_eq fun k hk => ?_
  rw [getLsbD_lane, getLsbD_joined]
  by_cases hlow : i < count
  · have := lane_bit_lt hw hlow hk
    simp [halfOf, hlow, hk, Nat.mod_eq_of_lt hlow, this]
  · have hmod : i % count = i - count := by
      rw [Nat.mod_eq_sub_mod (by omega), Nat.mod_eq_of_lt (by omega)]
    have hsplit : i * w = 64 + (i - count) * w := by
      rw [← hw, ← Nat.add_mul]
      congr 1
      omega
    have : (i - count) * w + k < 64 := lane_bit_lt hw (by omega) hk
    simp [halfOf, hlow, hk, hmod, hsplit, show ¬64 + (i - count) * w + k < 64 by omega,
      show 64 + (i - count) * w + k - 64 = (i - count) * w + k by omega]

/-- The loop that collects the lanes of a result, `count` of them in each half. -/
def collect (w count : Nat) (f : Nat → BitVec w) : Nat → BitVec 64 × BitVec 64
  | 0 => (0, 0)
  | index + 1 =>
    let result := collect w count f index
    let value := (f index).setWidth 64 <<< (index % count * w)
    if index < count then (result.1 ||| value, result.2) else (result.1, result.2 ||| value)

theorem getLsbD_shifted (hw : 0 < w) (v : BitVec w) (a : Nat) {k : Nat} (hk : k < 64) :
    (v.setWidth 64 <<< (a * w)).getLsbD k = (decide (k / w = a) && v.getLsbD (k % w)) := by
  have hsplit : w * (k / w) + k % w = k := Nat.div_add_mod k w
  have hmod : k % w < w := Nat.mod_lt k hw
  rw [Nat.mul_comm a w]
  rcases Nat.lt_trichotomy (k / w) a with h | rfl | h
  · have : w * (k / w + 1) ≤ w * a := Nat.mul_le_mul_left w h
    rw [Nat.mul_add, Nat.mul_one] at this
    simp [hk, show k < w * a by omega, h.ne]
  · have hsub : k - w * (k / w) = k % w := by omega
    simp [hk, show ¬k < w * (k / w) by omega, hsub]
  · have : w * (a + 1) ≤ w * (k / w) := Nat.mul_le_mul_left w h
    rw [Nat.mul_add, Nat.mul_one] at this
    have hout : v.getLsbD (k - w * a) = false := BitVec.getLsbD_of_ge _ _ (by omega)
    simp [hout, h.ne']

/-- The bits after the first `m` turns. -/
theorem getLsbD_collect (hw : 0 < w) (count : Nat) (f : Nat → BitVec w) {k q r : Nat} (hk : k < 64)
    (hq : k / w = q) (hr : k % w = r) : ∀ m ≤ 2 * count,
      ((collect w count f m).1.getLsbD k = (decide (q < m ∧ q < count) && (f q).getLsbD r)) ∧
      ((collect w count f m).2.getLsbD k =
        (decide (count + q < m) && (f (count + q)).getLsbD r))
  | 0, _ => by simp [collect]
  | m + 1, hm => by
    obtain ⟨hlow, hhigh⟩ := getLsbD_collect hw count f hk hq hr m (by omega)
    rw [collect]
    by_cases hhalf : m < count
    · rw [if_pos hhalf, Nat.mod_eq_of_lt hhalf]
      refine ⟨?_, ?_⟩
      · rw [BitVec.getLsbD_or, hlow, getLsbD_shifted hw _ _ hk, hq, hr]
        by_cases heq : q = m
        · simp [heq, hhalf]
        · simp [heq, show q < m + 1 ↔ q < m by omega]
      · rw [hhigh]
        simp [show ¬count + q < m by omega, show ¬count + q < m + 1 by omega]
    · have hmod : m % count = m - count := by
        rw [Nat.mod_eq_sub_mod (by omega), Nat.mod_eq_of_lt (by omega)]
      rw [if_neg hhalf, hmod]
      refine ⟨?_, ?_⟩
      · rw [hlow, decide_eq_decide.mpr
          (show (q < m + 1 ∧ q < count) ↔ (q < m ∧ q < count) by omega)]
      · rw [BitVec.getLsbD_or, hhigh, getLsbD_shifted hw _ _ hk, hq, hr]
        by_cases heq : q = m - count
        · rw [show count + q = m by omega]
          simp [heq]
        · simp [heq, show count + q < m + 1 ↔ count + q < m by omega]

/-- The loop gives each lane of the result. -/
theorem lane_collect (hw : 0 < w) {count : Nat} (hcount : count * w = 64) (f : Nat → BitVec w)
    {i : Nat} (hi : i < 2 * count) : lane w i (joined (collect w count f (2 * count))) = f i := by
  refine BitVec.eq_of_getLsbD_eq fun k hk => ?_
  have hdiv (a : Nat) : (a * w + k) / w = a := by
    rw [Nat.mul_comm, Nat.mul_add_div hw, Nat.div_eq_of_lt hk, Nat.add_zero]
  have hmod (a : Nat) : (a * w + k) % w = k := by
    rw [Nat.mul_comm, Nat.mul_add_mod, Nat.mod_eq_of_lt hk]
  rw [getLsbD_lane, getLsbD_joined]
  by_cases hlow : i < count
  · rw [if_pos (lane_bit_lt hcount hlow hk), 
      (getLsbD_collect hw count f (lane_bit_lt hcount hlow hk) (hdiv i) (hmod i) _ le_rfl).1]
    simp [hk, hlow, show i < 2 * count from hi]
  · have hsplit : i * w = 64 + (i - count) * w := by
      rw [← hcount, ← Nat.add_mul]
      congr 1
      omega
    have hhigh : (i - count) * w + k < 64 := lane_bit_lt hcount (by omega) hk
    rw [hsplit, if_neg (by omega), show 64 + (i - count) * w + k - 64 = (i - count) * w + k by omega,
      (getLsbD_collect hw count f hhigh (hdiv _) (hmod _) _ le_rfl).2, show count + (i - count) = i by omega]
    simp [hk, hi]

end Rosa
