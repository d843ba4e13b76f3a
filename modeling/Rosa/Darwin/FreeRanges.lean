import Rosa.Darwin.MachMemory

/-!
# The search for a free range

`findAnywhereRange` of `darwin/Mach.cpp` and `findMmapRange` of `darwin/SyscallMemory.cpp` scan the
mappings in the order of their bases and step over a mapping to the next aligned address.
`anywhereFrom_spec` says what a scan finds : the lowest free address, provided that its range ends
below a mapping or at the limit. The limit is looked at only after the last mapping, so a mapping
above the limit lures the search over it (`findRange_firstFit_iff`).
-/

namespace Rosa.Darwin

open Rosa.AddressSpace

def minimumMmapAddress : BitVec 64 := 0x100000000

/-- `findMmapRange` : the loop of `findAnywhereRange` with the page mask. -/
def findMmapRange (mappings : List Mapping) (size : BitVec 64) : Option (BitVec 64) :=
  anywhereFrom size guestPageMask (mappings.mergeSort fun a b => a.base ≤ b.base)
    minimumMmapAddress

/-! ## Alignment -/

/-- The mask of the addresses below `2 ^ k`. -/
def alignmentMask (k : Nat) : BitVec 64 := BitVec.ofNat 64 (2 ^ k - 1)

theorem toNat_alignmentMask {k : Nat} (hk : k ≤ 64) : (alignmentMask k).toNat = 2 ^ k - 1 := by
  have hle : 2 ^ k ≤ 2 ^ 64 := Nat.pow_le_pow_right (by decide) hk
  have hpos : 0 < 2 ^ k := Nat.two_pow_pos k
  rw [alignmentMask, BitVec.toNat_ofNat, Nat.mod_eq_of_lt (by omega)]

/-- A value that `alignUp` refuses is one with no room for the mask above it. -/
theorem allOnes_sub_lt_iff {v : BitVec 64} {k : Nat} (hk : k ≤ 64) :
    BitVec.allOnes 64 - alignmentMask k < v ↔ 2 ^ 64 - 2 ^ k < v.toNat := by
  have hle : 2 ^ k ≤ 2 ^ 64 := Nat.pow_le_pow_right (by decide) hk
  have hpos : 0 < 2 ^ k := Nat.two_pow_pos k
  have hmask := toNat_alignmentMask hk
  have hsub : alignmentMask k ≤ BitVec.allOnes 64 := by
    rw [BitVec.le_def, BitVec.toNat_allOnes, hmask]
    omega
  rw [BitVec.lt_def, BitVec.toNat_sub_of_le hsub, BitVec.toNat_allOnes, hmask]
  omega

theorem toNat_and_not_alignmentMask (v : BitVec 64) {k : Nat} (hk : k ≤ 64) :
    (v &&& ~~~alignmentMask k).toNat = v.toNat / 2 ^ k * 2 ^ k := by
  apply Nat.eq_of_testBit_eq
  intro i
  rw [BitVec.testBit_toNat, BitVec.getLsbD_and, BitVec.getLsbD_not, ← BitVec.testBit_toNat,
    ← BitVec.testBit_toNat, toNat_alignmentMask hk, Nat.testBit_two_pow_sub_one,
    Nat.testBit_mul_two_pow, Nat.testBit_div_two_pow]
  by_cases h : i < k
  · simp [h, not_le.mpr h]
  · have hk' : k ≤ i := not_lt.mp h
    by_cases hi : i < 64
    · simp [h, hk', hi]
    · have hzero : v.toNat.testBit i = false :=
        Nat.testBit_lt_two_pow (v.isLt.trans_le (Nat.pow_le_pow_right (by decide) (not_lt.mp hi)))
      simp [hk', hi, hzero]

/-- The lowest aligned address from a value on, if there is one. -/
theorem alignUp_some {v next : BitVec 64} {k : Nat} (hk : k ≤ 64)
    (h : alignUp v (alignmentMask k) = some next) :
    IsLeast {c | 2 ^ k ∣ c ∧ v.toNat ≤ c} next.toNat := by
  have hpos : 0 < 2 ^ k := Nat.two_pow_pos k
  have hle : 2 ^ k ≤ 2 ^ 64 := Nat.pow_le_pow_right (by decide) hk
  have hmask := toNat_alignmentMask hk
  unfold alignUp at h
  split at h
  · exact nomatch h
  · next hfits =>
    obtain rfl := Option.some.inj h
    rw [allOnes_sub_lt_iff hk] at hfits
    have hsum : (v + alignmentMask k).toNat = v.toNat + (2 ^ k - 1) := by
      rw [BitVec.toNat_add, hmask, Nat.mod_eq_of_lt (by omega)]
    rw [toNat_and_not_alignmentMask _ hk, hsum]
    have hdiv := Nat.div_add_mod' (v.toNat + (2 ^ k - 1)) (2 ^ k)
    have hmod := Nat.mod_lt (v.toNat + (2 ^ k - 1)) hpos
    refine ⟨⟨Nat.dvd_mul_left _ _, by omega⟩, ?_⟩
    rintro c ⟨⟨t, rfl⟩, hc⟩
    rw [Nat.mul_comm (2 ^ k) t]
    refine Nat.mul_le_mul_right _ (Nat.lt_succ_iff.mp ?_)
    rw [Nat.div_lt_iff_lt_mul hpos, Nat.succ_mul, Nat.mul_comm t]
    omega

theorem alignUp_none {v : BitVec 64} {k c : Nat} (hk : k ≤ 64)
    (h : alignUp v (alignmentMask k) = none) (hdvd : 2 ^ k ∣ c) (hc : v.toNat ≤ c) :
    2 ^ 64 ≤ c := by
  have hle : 2 ^ k ≤ 2 ^ 64 := Nat.pow_le_pow_right (by decide) hk
  unfold alignUp at h
  split at h
  · next hlt =>
    rw [allOnes_sub_lt_iff hk] at hlt
    by_contra hnot
    -- the next multiple after `c` is still not after the end of the address space
    obtain ⟨t, rfl⟩ := hdvd
    have hsplit : 2 ^ 64 = 2 ^ k * 2 ^ (64 - k) := by rw [← Nat.pow_add, Nat.add_sub_cancel' hk]
    rw [hsplit] at hnot
    have ht : t + 1 ≤ 2 ^ (64 - k) := Nat.lt_of_mul_lt_mul_left (not_le.mp hnot)
    have := Nat.mul_le_mul_left (2 ^ k) ht
    rw [← hsplit, Nat.mul_succ] at this
    omega
  · exact nomatch h

/-! ## One turn of the loop

The equation that Lean derives for `anywhereFrom` decides the comparisons of addresses by counting
up to them. Its proof here leaves them alone. -/

/-- A recursion over a list that is not empty starts with one turn. -/
theorem brecOn_cons {α β : Type} (turn : (l : List α) → List.below (motive := fun _ => β) l → β)
    (a : α) (l : List α) :
    ∃ below, (List.brecOn (a :: l) turn : β) = turn (a :: l) ⟨List.brecOn l turn, below⟩ :=
  ⟨_, rfl⟩

theorem anywhereFrom_turn {size mask candidate : BitVec 64} {m : Mapping} {ms : List Mapping}
    {later : BitVec 64 → Option (BitVec 64)} (below) :
    anywhereFrom._f size mask (m :: ms) ⟨later, below⟩ candidate =
      if BitVec.ofNat 64 m.base + BitVec.ofNat 64 m.size ≤ candidate then later candidate
      else if candidate ≤ BitVec.ofNat 64 m.base ∧ size ≤ BitVec.ofNat 64 m.base - candidate then
        some candidate
      else (alignUp (BitVec.ofNat 64 m.base + BitVec.ofNat 64 m.size) mask).bind later := by
  delta anywhereFrom._f
  generalize alignUp = align
  by_cases hpassed : BitVec.ofNat 64 m.base + BitVec.ofNat 64 m.size ≤ candidate
  · exact (if_pos hpassed).trans (if_pos hpassed).symm
  · refine (if_neg hpassed).trans (Eq.trans ?_ (if_neg hpassed).symm)
    by_cases hgap : candidate ≤ BitVec.ofNat 64 m.base ∧ size ≤ BitVec.ofNat 64 m.base - candidate
    · exact (if_pos hgap).trans (if_pos hgap).symm
    · refine (if_neg hgap).trans (Eq.trans ?_ (if_neg hgap).symm)
      cases align (BitVec.ofNat 64 m.base + BitVec.ofNat 64 m.size) mask with
      | none => rfl
      | some next => rfl

theorem anywhereFrom_cons {size mask candidate : BitVec 64} {m : Mapping} {ms : List Mapping} :
    anywhereFrom size mask (m :: ms) candidate =
      if BitVec.ofNat 64 m.base + BitVec.ofNat 64 m.size ≤ candidate then
        anywhereFrom size mask ms candidate
      else if candidate ≤ BitVec.ofNat 64 m.base ∧ size ≤ BitVec.ofNat 64 m.base - candidate then
        some candidate
      else (alignUp (BitVec.ofNat 64 m.base + BitVec.ofNat 64 m.size) mask).bind
        (anywhereFrom size mask ms) := by
  have hloop : ∀ l, anywhereFrom size mask l = List.brecOn l (anywhereFrom._f size mask) := by
    intro l
    delta anywhereFrom
    rfl
  obtain ⟨below, hturn⟩ := brecOn_cons (anywhereFrom._f size mask) m ms
  rw [hloop (m :: ms), hloop ms]
  exact (congrFun hturn candidate).trans (anywhereFrom_turn below)

theorem findAnywhereRange_eq (ms : List Mapping) (hint size mask : BitVec 64) :
    findAnywhereRange ms hint size mask =
      (alignUp (if hint < minimumAnywhereAddress then minimumAnywhereAddress else hint) mask).bind
        (anywhereFrom size mask (ms.mergeSort fun a b => a.base ≤ b.base)) := by
  suffices h : ∀ search, search = findAnywhereRange → search ms hint size mask =
      (alignUp (if hint < minimumAnywhereAddress then minimumAnywhereAddress else hint) mask).bind
        (anywhereFrom size mask (ms.mergeSort fun a b => a.base ≤ b.base)) from h _ rfl
  intro search hsearch
  delta findAnywhereRange at hsearch
  subst hsearch
  generalize alignUp = align
  beta_reduce
  generalize (if hint < minimumAnywhereAddress then minimumAnywhereAddress else hint) = start
  cases align start mask with
  | none => rfl
  | some candidate => rfl

theorem anywhereFrom_nil {size mask candidate : BitVec 64} :
    anywhereFrom size mask [] candidate =
      if candidate ≤ maximumUserMapEnd ∧ size ≤ maximumUserMapEnd - candidate then some candidate
      else none := rfl

/-! ## What a scan finds -/

/-- The aligned addresses from `start` on at which a range of `size` bytes meets no mapping. -/
def Free (mappings : List Mapping) (start k size : Nat) : Set Nat :=
  {c | 2 ^ k ∣ c ∧ start ≤ c ∧ ∀ m ∈ mappings, m.base + m.size ≤ c ∨ c + size ≤ m.base}

/-- Mappings in order, none of them empty or across the end of the address space. -/
structure Ordered (mappings : List Mapping) : Prop where
  apart : mappings.Pairwise fun a b => a.base + a.size ≤ b.base
  nonempty : ∀ m ∈ mappings, 0 < m.size
  below : ∀ m ∈ mappings, m.base + m.size < 2 ^ 64

theorem Ordered.tail {m : Mapping} {ms : List Mapping} (h : Ordered (m :: ms)) :
    Ordered ms :=
  ⟨(List.pairwise_cons.mp h.apart).2, fun a ha => h.nonempty a (List.mem_cons_of_mem _ ha),
    fun a ha => h.below a (List.mem_cons_of_mem _ ha)⟩

/-- Mappings that a range is not below are left behind by the search. -/
theorem free_cons_of_le {m : Mapping} {ms : List Mapping} {start next k size : Nat}
    (hend : m.base + m.size ≤ next)
    (hnext : ∀ c, 2 ^ k ∣ c → start ≤ c → (m.base + m.size ≤ c ∨ c + size ≤ m.base) → next ≤ c)
    (hle : start ≤ next) : Free (m :: ms) start k size = Free ms next k size := by
  ext c
  constructor
  · rintro ⟨h1, h2, h3⟩
    exact ⟨h1, hnext c h1 h2 (h3 m List.mem_cons_self),
      fun a ha => h3 a (List.mem_cons_of_mem _ ha)⟩
  · rintro ⟨h1, h2, h3⟩
    refine ⟨h1, hle.trans h2, fun a ha => ?_⟩
    rcases List.mem_cons.mp ha with rfl | ha
    · exact .inl (hend.trans h2)
    · exact h3 a ha

/-- What a scan returns. -/
def Scanned (mappings : List Mapping) (start k size : Nat) : Option Nat → Prop
  | some a => IsLeast (Free mappings start k size) a ∧
      (a + size ≤ maximumUserMapEnd.toNat ∨ ∃ m ∈ mappings, a + size ≤ m.base)
  | none => ∀ c ∈ Free mappings start k size,
      maximumUserMapEnd.toNat < c + size ∧ ∀ m ∈ mappings, m.base < c

theorem Scanned.cons {m : Mapping} {ms : List Mapping} {start next k size : Nat}
    {result : Option Nat} (hpos : 0 < m.size)
    (hend : m.base + m.size ≤ next)
    (hnext : ∀ c, 2 ^ k ∣ c → start ≤ c → (m.base + m.size ≤ c ∨ c + size ≤ m.base) → next ≤ c)
    (hle : start ≤ next) (h : Scanned ms next k size result) :
    Scanned (m :: ms) start k size result := by
  have hfree : Free (m :: ms) start k size = Free ms next k size := free_cons_of_le hend hnext hle
  cases result with
  | some a =>
    refine ⟨hfree ▸ h.1, h.2.imp id ?_⟩
    rintro ⟨b, hb, hab⟩
    exact ⟨b, List.mem_cons_of_mem _ hb, hab⟩
  | none =>
    intro c hc
    rw [hfree] at hc
    refine ⟨(h c hc).1, fun b hb => ?_⟩
    rcases List.mem_cons.mp hb with rfl | hb
    · have := hc.2.1
      omega
    · exact (h c hc).2 b hb

/-- The range at `a` ends at `b` or before it. -/
theorem le_and_le_sub_iff {a b size : BitVec 64} :
    a ≤ b ∧ size ≤ b - a ↔ a.toNat + size.toNat ≤ b.toNat := by
  by_cases h : a ≤ b
  · have hle := BitVec.le_def.mp h
    rw [BitVec.le_def, BitVec.le_def, BitVec.toNat_sub_of_le h]
    omega
  · have hlt : ¬a.toNat ≤ b.toNat := fun h' => h (BitVec.le_def.mpr h')
    simp only [h, false_and, false_iff]
    omega

/-- The scan finds the lowest free address, if its range ends below a mapping or at the limit. -/
theorem anywhereFrom_spec {k : Nat} {size : BitVec 64} (hk : k ≤ 64) :
    ∀ {ms : List Mapping} {candidate : BitVec 64}, Ordered ms → 2 ^ k ∣ candidate.toNat →
      Scanned ms candidate.toNat k size.toNat
        ((anywhereFrom size (alignmentMask k) ms candidate).map BitVec.toNat)
  | [], candidate, _, hdvd => by
    rw [anywhereFrom_nil]
    simp only [le_and_le_sub_iff]
    split
    · next h => exact ⟨⟨⟨hdvd, le_rfl, by simp⟩, fun c hc => hc.2.1⟩, .inl h⟩
    · next h =>
      rintro c ⟨-, hc, -⟩
      exact ⟨by omega, by simp⟩
  | m :: ms, candidate, ho, hdvd => by
    have hbelow := ho.below m List.mem_cons_self
    have hpos := ho.nonempty m List.mem_cons_self
    have hlater := (List.pairwise_cons.mp ho.apart).1
    have hbase : (BitVec.ofNat 64 m.base).toNat = m.base := by
      rw [BitVec.toNat_ofNat, Nat.mod_eq_of_lt (by omega)]
    have hend : (BitVec.ofNat 64 m.base + BitVec.ofNat 64 m.size).toNat = m.base + m.size := by
      rw [BitVec.toNat_add, BitVec.toNat_ofNat, BitVec.toNat_ofNat, ← Nat.add_mod,
        Nat.mod_eq_of_lt hbelow]
    rw [anywhereFrom_cons]
    simp only [le_and_le_sub_iff, hbase]
    split
    · next hpassed =>
      rw [BitVec.le_def, hend] at hpassed
      exact (anywhereFrom_spec hk ho.tail hdvd).cons hpos hpassed (fun _ _ h _ => h) le_rfl
    · next hahead =>
      rw [BitVec.le_def, hend] at hahead
      split
      · next hgap =>
        refine ⟨⟨⟨hdvd, le_rfl, fun a ha => ?_⟩, fun c hc => hc.2.1⟩,
          .inr ⟨m, List.mem_cons_self, hgap⟩⟩
        rcases List.mem_cons.mp ha with rfl | ha
        · exact .inr hgap
        · have := hlater a ha
          exact .inr (by omega)
      · next hgap =>
        -- no free address is before the end of this mapping
        have hafter : ∀ c, candidate.toNat ≤ c →
            (m.base + m.size ≤ c ∨ c + size.toNat ≤ m.base) → m.base + m.size ≤ c := by
          intro c hc h
          omega
        cases hnext : alignUp (BitVec.ofNat 64 m.base + BitVec.ofNat 64 m.size)
            (alignmentMask k) with
        | none =>
          rintro c ⟨h1, h2, h3⟩
          have hc := alignUp_none hk hnext h1 (hend ▸ hafter c h2 (h3 m List.mem_cons_self))
          have hlimit : maximumUserMapEnd.toNat < 2 ^ 64 := maximumUserMapEnd.isLt
          refine ⟨by omega, fun b hb => ?_⟩
          have := ho.below b hb
          omega
        | some next =>
          obtain ⟨⟨hn1, hn2⟩, hleast⟩ := alignUp_some hk hnext
          rw [hend] at hn2
          exact (anywhereFrom_spec hk ho.tail hn1).cons hpos hn2
            (fun c h1 h2 h => hleast ⟨h1, hend ▸ hafter c h2 h⟩) (by omega)

/-! ## The two searches -/

theorem ordered_mappings {s : AddressSpace} (hi : Inv s) : Ordered s.mappings :=
  ⟨hi.sorted, fun m hm => (hi.placed m hm).nonempty, fun m hm => (hi.placed m hm).below⟩

theorem mergeSort_of_ordered {ms : List Mapping} (h : Ordered ms) :
    (ms.mergeSort fun a b => a.base ≤ b.base) = ms := by
  refine List.mergeSort_of_pairwise (h.apart.imp fun {a b} hab => ?_)
  exact decide_eq_true (by omega)

/-- The addresses that a search may return. -/
def Allowed (s : AddressSpace) (start k size : Nat) : Set Nat :=
  {c | 2 ^ k ∣ c ∧ start ≤ c ∧ c + size ≤ maximumUserMapEnd.toNat ∧
    ∀ m ∈ s.mappings, m.base + m.size ≤ c ∨ c + size ≤ m.base}

/-- The lowest address allowed, or none if there is none. -/
def FirstFit (s : AddressSpace) (start k size : Nat) : Option Nat → Prop
  | some a => IsLeast (Allowed s start k size) a
  | none => Allowed s start k size = ∅

/-- No range within the limit is free, and one is free across the limit and below a mapping. -/
def Lured (s : AddressSpace) (start k size : Nat) : Prop :=
  Allowed s start k size = ∅ ∧ ∃ c, 2 ^ k ∣ c ∧ start ≤ c ∧
    (∀ m ∈ s.mappings, m.base + m.size ≤ c ∨ c + size ≤ m.base) ∧ ∃ m ∈ s.mappings, c + size ≤ m.base

variable {s : AddressSpace} {start k size : Nat}

/-- A scan is a first fit if and only if nothing lures it over the limit. -/
theorem Scanned.firstFit_iff {result : Option Nat}
    (h : Scanned s.mappings start k size result) :
    FirstFit s start k size result ↔ ¬Lured s start k size := by
  cases result with
  | none =>
    have hnone : Allowed s start k size = ∅ := by
      rw [Set.eq_empty_iff_forall_notMem]
      rintro c ⟨h1, h2, h3, h4⟩
      have := (h c ⟨h1, h2, h4⟩).1
      omega
    refine ⟨?_, fun _ => hnone⟩
    rintro - ⟨-, c, h1, h2, h3, m, hm, hcm⟩
    have := (h c ⟨h1, h2, h3⟩).2 m hm
    omega
  | some a =>
    obtain ⟨⟨⟨h1, h2, h3⟩, hleast⟩, hends⟩ := h
    constructor
    · rintro hfit ⟨hempty, -⟩
      rw [FirstFit, hempty] at hfit
      exact hfit.1
    · intro hlured
      have hbelow : a + size ≤ maximumUserMapEnd.toNat := by
        by_contra hover
        obtain ⟨m, hm, ham⟩ := hends.resolve_left hover
        refine hlured ⟨?_, a, h1, h2, h3, m, hm, ham⟩
        rw [Set.eq_empty_iff_forall_notMem]
        rintro c ⟨hc1, hc2, hc3, hc4⟩
        have := hleast ⟨hc1, hc2, hc4⟩
        omega
      refine ⟨⟨h1, h2, hbelow, h3⟩, ?_⟩
      rintro c ⟨hc1, hc2, -, hc4⟩
      exact hleast ⟨hc1, hc2, hc4⟩

/-- Where the search starts. -/
theorem toNat_start (hint : BitVec 64) :
    (if hint < minimumAnywhereAddress then minimumAnywhereAddress else hint).toNat =
      max hint.toNat minimumAnywhereAddress.toNat := by
  by_cases h : hint < minimumAnywhereAddress
  · rw [if_pos h]
    rw [BitVec.lt_def] at h
    omega
  · rw [if_neg h]
    rw [BitVec.lt_def] at h
    omega

theorem findAnywhereRange_scanned (hi : Inv s) (hint size : BitVec 64) (hk : k ≤ 64) :
    Scanned s.mappings (max hint.toNat minimumAnywhereAddress.toNat) k size.toNat
      ((findAnywhereRange s.mappings hint size (alignmentMask k)).map BitVec.toNat) := by
  have ho := ordered_mappings hi
  rw [findAnywhereRange_eq, mergeSort_of_ordered ho, ← toNat_start]
  generalize (if hint < minimumAnywhereAddress then minimumAnywhereAddress else hint) = start
  cases hstart : alignUp start (alignmentMask k) with
  | none =>
    rintro c ⟨h1, h2, -⟩
    have hc := alignUp_none hk hstart h1 h2
    have hlimit : maximumUserMapEnd.toNat < 2 ^ 64 := maximumUserMapEnd.isLt
    refine ⟨by omega, fun m hm => ?_⟩
    have := ho.below m hm
    omega
  | some candidate =>
    obtain ⟨⟨h1, h2⟩, hleast⟩ := alignUp_some hk hstart
    have hfree : Free s.mappings start.toNat k size.toNat =
        Free s.mappings candidate.toNat k size.toNat := by
      ext c
      exact ⟨fun h => ⟨h.1, hleast ⟨h.1, h.2.1⟩, h.2.2⟩, fun h => ⟨h.1, h2.trans h.2.1, h.2.2⟩⟩
    have hscan : Scanned s.mappings candidate.toNat k size.toNat _ := anywhereFrom_spec hk ho h1
    unfold Scanned at hscan ⊢
    rw [hfree]
    exact hscan

theorem findMmapRange_scanned (hi : Inv s) (size : BitVec 64) :
    Scanned s.mappings minimumMmapAddress.toNat 12 size.toNat
      ((findMmapRange s.mappings size).map BitVec.toNat) := by
  have ho := ordered_mappings hi
  unfold findMmapRange
  rw [mergeSort_of_ordered ho]
  exact anywhereFrom_spec (by decide) ho (by decide)

/-- Both searches are first fits, in every space that calls lead to, if and only if no mapping
above the limit lures them over it. -/
theorem findRange_firstFit_iff (calls : List Call) (hint size : BitVec 64) (k : Nat) (hk : k ≤ 64) :
    (FirstFit (afterAll {} calls) (max hint.toNat minimumAnywhereAddress.toNat) k size.toNat
        ((findAnywhereRange (afterAll {} calls).mappings hint size (alignmentMask k)).map
          BitVec.toNat) ↔
      ¬Lured (afterAll {} calls) (max hint.toNat minimumAnywhereAddress.toNat) k size.toNat) ∧
    (FirstFit (afterAll {} calls) minimumMmapAddress.toNat 12 size.toNat
        ((findMmapRange (afterAll {} calls).mappings size).map BitVec.toNat) ↔
      ¬Lured (afterAll {} calls) minimumMmapAddress.toNat 12 size.toNat) := by
  have hi : Inv (afterAll {} calls) := inv_afterAll calls .initial
  exact ⟨(findAnywhereRange_scanned hi hint size hk).firstFit_iff,
    (findMmapRange_scanned hi size).firstFit_iff⟩

/-- Without mappings there is nothing to be lured by. -/
theorem findRange_firstFit_empty :
    FirstFit (afterAll {} []) (max (0x200000000 : BitVec 64).toNat minimumAnywhereAddress.toNat) 12
      (0x1000 : BitVec 64).toNat
      ((findAnywhereRange (afterAll {} []).mappings 0x200000000 0x1000 (alignmentMask 12)).map
        BitVec.toNat) := by
  refine (findRange_firstFit_iff [] 0x200000000 0x1000 12 (by decide)).1.mpr ?_
  rintro ⟨-, c, -, -, -, m, hm, -⟩
  exact absurd hm List.not_mem_nil

/-- A page above the limit. -/
def pageAboveLimit : List Call :=
  [.mapAnonymous 0x800000001000 0x1000 { read := true } { read := true } "high" none]

/-- With a hint at the limit the search returns a range that ends above it. -/
theorem not_firstFit_pageAboveLimit :
    findAnywhereRange (afterAll {} pageAboveLimit).mappings 0x7FFFFFFFF000 0x1000
        (alignmentMask 12) = some 0x7FFFFFFFF000 ∧
      ¬FirstFit (afterAll {} pageAboveLimit)
        (max (0x7FFFFFFFF000 : BitVec 64).toNat minimumAnywhereAddress.toNat) 12
        (0x1000 : BitVec 64).toNat
        ((findAnywhereRange (afterAll {} pageAboveLimit).mappings 0x7FFFFFFFF000 0x1000
          (alignmentMask 12)).map BitVec.toNat) := by
  have hfound : findAnywhereRange (afterAll {} pageAboveLimit).mappings 0x7FFFFFFFF000 0x1000
      (alignmentMask 12) = some 0x7FFFFFFFF000 := by decide +kernel
  refine ⟨hfound, ?_⟩
  rw [hfound]
  rintro ⟨⟨-, -, hlimit, -⟩, -⟩
  exact absurd hlimit (by decide)

end Rosa.Darwin
