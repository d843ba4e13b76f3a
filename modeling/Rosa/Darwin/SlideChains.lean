import Rosa.Darwin.SlideInfo
import Rosa.Darwin.ChainSlots

/-!
# Slide chains

`parseSlideInfo2` and the walks of `applySlideInfo2Page` in `darwin/SharedCache.cpp`. A walk is
written with the slots it visits and the table entries it reads, and with fuel that cuts it where
the source would still be running; `FollowsSafely` says that some fuel is enough and what the walk
has done then. The guard of a chain subtracts the distance to the next slot from the size of the
page, which wraps for a distance larger than a page. A chain that then leaves the page is caught by
the next check, unless the distance is so close to `2 ^ 64` that the chain goes back : only the delta
mask with all 62 bits has such distances (`followsSafely_iff`).
-/

namespace Rosa

namespace Darwin

/-! ## Parsing -/

/-- A field of the header, which is there when the header is. -/
def headerField (w : Nat) (bytes : List Byte) (offset : Nat) : BitVec w :=
  ofLittleEndian w (w / 8) (bytes.drop offset)

/-- The check of the extras of a page, from an index on. -/
def checkExtras (bytes : List Byte) (pageExtrasOffset : BitVec 32) (pageExtrasCount pageSize : Nat) :
    Nat → Nat → Except String Unit
  | 0, _ => .error "dyld shared cache extra slide chains are unterminated"
  | fuel + 1, extraIndex =>
    if extraIndex < pageExtrasCount then
      match readU16 bytes (pageExtrasOffset.toNat + extraIndex * 2) with
      | .error message => .error message
      | .ok extra =>
        if extra &&& 0x4000 ≠ 0 then .error "dyld shared cache slide extra has invalid attributes"
        else if pageSize - 8 < (extra &&& 0x3FFF).toNat * 4 then
          .error "dyld shared cache extra slide chain starts outside its page"
        else if extra &&& 0x8000 ≠ 0 then .ok ()
        else checkExtras bytes pageExtrasOffset pageExtrasCount pageSize fuel (extraIndex + 1)
    else .error "dyld shared cache extra slide chains are unterminated"

/-- The check of a page. -/
def checkPage (bytes : List Byte) (info : SlideInfo2) (pageExtrasCount : Nat) (page : Nat) :
    Except String Unit :=
  match readU16 bytes (info.pageStartsOffset.toNat + page * 2) with
  | .error message => .error message
  | .ok start =>
    let attributes := start &&& 0xC000
    if attributes = 0x4000 then .ok ()
    else if attributes = 0 then
      if info.pageSize - 8 < start.toNat * 4 then
        .error "dyld shared cache slide chain starts outside its page"
      else .ok ()
    else if attributes ≠ 0x8000 then
      .error "dyld shared cache slide page has invalid attributes"
    else
      checkExtras bytes info.pageExtrasOffset pageExtrasCount info.pageSize (pageExtrasCount + 1)
        (start &&& 0x3FFF).toNat

/-- The checks of the pages from the first on. -/
def checkPages (check : Nat → Except String Unit) : List Nat → Except String Unit
  | [] => .ok ()
  | page :: pages =>
    match check page with
    | .error message => .error message
    | .ok () => checkPages check pages

/-- `parseSlideInfo2`, with the number of page extras. -/
def parseSlideInfo2 (bytes : List Byte) (mappingSize : Nat) :
    Except String (SlideInfo2 × BitVec 32) :=
  if bytes.length < 40 ∨ headerField 32 bytes 0 ≠ 2 then
    .error "x86_64 dyld shared cache requires slide-info version 2"
  else
    let pageSize := (headerField 32 bytes 4).toNat
    let pageStartsOffset := headerField 32 bytes 8
    let pageStartsCount := headerField 32 bytes 12
    let pageExtrasOffset := headerField 32 bytes 16
    let pageExtrasCount := headerField 32 bytes 20
    let deltaMask := headerField 64 bytes 24
    if hgeometry : pageSize = guestPageSize ∧ mappingSize / pageSize = pageStartsCount.toNat ∧
        mappingSize % pageSize = 0 then
      if bytes.length < pageStartsOffset.toNat ∨
          bytes.length - pageStartsOffset.toNat < pageStartsCount.toNat * 2 ∨
          bytes.length < pageExtrasOffset.toNat ∨
          bytes.length - pageExtrasOffset.toNat < pageExtrasCount.toNat * 2 then
        .error "dyld shared cache slide tables are truncated"
      else if hempty : deltaMask = 0 then .error "dyld shared cache slide delta mask is empty"
      else
        let normalizedMask := deltaMask >>> countrZero deltaMask
        if hspaced : 2 ≤ countrZero deltaMask ∧ normalizedMask &&& (normalizedMask + 1) = 0 then
          let info : SlideInfo2 :=
            { pageSize := pageSize, pageStartsOffset := pageStartsOffset
              pageStartsCount := pageStartsCount, pageExtrasOffset := pageExtrasOffset
              deltaMask := deltaMask, valueAdd := headerField 64 bytes 32
              geometry := hgeometry.1, spaced := ⟨hempty, hspaced.1⟩ }
          match checkPages (checkPage bytes info pageExtrasCount.toNat)
              (List.range pageStartsCount.toNat) with
          | .error message => .error message
          | .ok () => .ok (info, pageExtrasCount)
        else .error "dyld shared cache slide delta mask is not contiguous"
    else .error "dyld shared cache slide page geometry differs from its mapping"

/-! ## Walks -/

/-- A slot that a chain visits : its offset in the page and the word read there. -/
structure Visit where
  offset : Nat
  raw : BitVec 64
  deriving DecidableEq, Repr

/-- The loop of `applyChain` with the slots it visits. Nothing is returned when the fuel is used up
while the loop still runs. -/
def chainWalk (info : SlideInfo2) (slide : BitVec 64) (size page : Nat) :
    Nat → BitVec 64 → (Nat → Byte) → Option (List Visit × (Nat → Byte) × Option String)
  | 0, _, _ => none
  | fuel + 1, pageOffset, bytes =>
    if BitVec.ofNat 64 info.pageSize - 8 < pageOffset then
      some ([], bytes, some "dyld shared cache slide chain leaves its page")
    else
      let location := page * info.pageSize + pageOffset.toNat
      match readU64 size bytes location with
      | .error message => some ([], bytes, some message)
      | .ok raw =>
        let visit : Visit := ⟨pageOffset.toNat, raw⟩
        match rebased info slide raw with
        | .error message => some ([visit], bytes, some message)
        | .ok value =>
          let bytes := writeU64 bytes location value
          let delta := chainDelta info raw
          if delta = 0 then some ([visit], bytes, none)
          else if BitVec.ofNat 64 info.pageSize - delta < pageOffset then
            some ([visit], bytes, some "dyld shared cache slide delta leaves its page")
          else
            match chainWalk info slide size page fuel (pageOffset + delta) bytes with
            | none => none
            | some (visits, bytes, error) => some (visit :: visits, bytes, error)

/-- A walk over the chains of a page : the slots of each chain, the table entries read, the bytes
left and what was thrown. -/
structure PageWalk where
  chains : List (List Visit)
  entries : List Nat
  bytes : Nat → Byte
  error : Option String

/-- The loop over the extras. -/
def extrasWalk (slideInfo : List Byte) (info : SlideInfo2) (slide : BitVec 64)
    (size page chainFuel : Nat) : Nat → BitVec 32 → (Nat → Byte) → Option PageWalk
  | 0, _, _ => none
  | fuel + 1, extraIndex, bytes =>
    let entry := info.pageExtrasOffset.toNat + extraIndex.toNat * 2
    match readU16 slideInfo entry with
    | .error message => some ⟨[], [entry], bytes, some message⟩
    | .ok extra =>
      match chainWalk info slide size page chainFuel (chainStart extra) bytes with
      | none => none
      | some (visits, bytes, some message) => some ⟨[visits], [entry], bytes, some message⟩
      | some (visits, bytes, none) =>
        if extra &&& 0x8000 ≠ 0 then some ⟨[visits], [entry], bytes, none⟩
        else
          match extrasWalk slideInfo info slide size page chainFuel fuel (extraIndex + 1) bytes with
          | none => none
          | some w => some { w with chains := visits :: w.chains, entries := entry :: w.entries }

/-- The walk of `applySlideInfo2Page`. -/
def pageWalk (slideInfo : List Byte) (info : SlideInfo2) (slide : BitVec 64) (size : Nat)
    (bytes : Nat → Byte) (page chainFuel extrasFuel : Nat) : Option PageWalk :=
  if info.pageStartsCount.toNat ≤ page then
    some ⟨[], [], bytes, some "dyld shared cache slide page lies outside its mapping"⟩
  else
    let entry := info.pageStartsOffset.toNat + page * 2
    match readU16 slideInfo entry with
    | .error message => some ⟨[], [entry], bytes, some message⟩
    | .ok start =>
      let attributes := start &&& 0xC000
      if attributes = 0x4000 then some ⟨[], [entry], bytes, none⟩
      else if attributes = 0 then
        match chainWalk info slide size page chainFuel (chainStart start) bytes with
        | none => none
        | some (visits, bytes, error) => some ⟨[visits], [entry], bytes, error⟩
      else
        match extrasWalk slideInfo info slide size page chainFuel extrasFuel
            ((start &&& 0x3FFF).setWidth 32) bytes with
        | none => none
        | some w => some { w with entries := entry :: w.entries }

/-- What the slots of a walk hold at the end, if they do not overlap. -/
structure SlotsRebased (info : SlideInfo2) (slide : BitVec 64) (page : Nat) (bytes : Nat → Byte)
    (w : PageWalk) : Prop where
  inside : ∀ v ∈ w.chains.flatten,
    let value := slotWord bytes (page * info.pageSize + v.offset) &&& ~~~info.deltaMask
    if value = 0 then slotWord w.bytes (page * info.pageSize + v.offset) = 0
    else value.toNat + info.valueAdd.toNat + slide.toNat < 2 ^ 64 ∧
      slotWord w.bytes (page * info.pageSize + v.offset) = value + info.valueAdd + slide
  outside : ∀ i, (∀ v ∈ w.chains.flatten,
    i < page * info.pageSize + v.offset ∨ page * info.pageSize + v.offset + 8 ≤ i) →
    w.bytes i = bytes i

/-- The walk over a page ends, and what it has done then. -/
def FollowsSafely (slideInfo : List Byte) (info : SlideInfo2) (pageExtrasCount : BitVec 32)
    (slide : BitVec 64) (size : Nat) (bytes : Nat → Byte) (page : Nat) : Prop :=
  ∃ chainFuel extrasFuel w,
    pageWalk slideInfo info slide size bytes page chainFuel extrasFuel = some w ∧
    applySlideInfo2Page slideInfo info slide size bytes page = (w.bytes, w.error) ∧
    (∀ entry ∈ w.entries, entry + 2 ≤ slideInfo.length ∧
      (entry = info.pageStartsOffset.toNat + page * 2 ∨
        ∃ k < pageExtrasCount.toNat, entry = info.pageExtrasOffset.toNat + k * 2)) ∧
    (∀ chain ∈ w.chains, (chain.map Visit.offset).Pairwise (· < ·)) ∧
    (∀ v ∈ w.chains.flatten, v.offset + 8 ≤ info.pageSize ∧
      page * info.pageSize + v.offset + 8 ≤ size) ∧
    (∀ i, i / info.pageSize ≠ page → w.bytes i = bytes i) ∧
    (∀ v ∈ w.chains.flatten, info.pageSize - 8 < v.offset + (chainDelta info v.raw).toNat →
      w.error ≠ none) ∧
    (w.error = none → Apart (w.chains.flatten.map Visit.offset) →
      SlotsRebased info slide page bytes w)

/-! ## What the parser promises -/

/-- What the checks of `parseSlideInfo2` leave. -/
structure Accepted (bytes : List Byte) (mappingSize : Nat) (info : SlideInfo2)
    (pageExtrasCount : BitVec 32) : Prop where
  pages : mappingSize = info.pageStartsCount.toNat * info.pageSize
  starts : info.pageStartsOffset.toNat + info.pageStartsCount.toNat * 2 ≤ bytes.length
  extras : info.pageExtrasOffset.toNat + pageExtrasCount.toNat * 2 ≤ bytes.length
  contiguous : info.deltaMask >>> countrZero info.deltaMask &&&
    (info.deltaMask >>> countrZero info.deltaMask + 1) = 0
  checked : ∀ page < info.pageStartsCount.toNat,
    checkPage bytes info pageExtrasCount.toNat page = .ok ()

theorem checkPages_ok {check : Nat → Except String Unit} {pages : List Nat}
    (h : checkPages check pages = .ok ()) : ∀ page ∈ pages, check page = .ok () := by
  induction pages with
  | nil => exact fun page hp => absurd hp List.not_mem_nil
  | cons first pages ih =>
    unfold checkPages at h
    cases hfirst : check first with
    | error message =>
      rw [hfirst] at h
      cases h
    | ok u =>
      rw [hfirst] at h
      intro page hp
      rcases List.mem_cons.mp hp with rfl | hp
      · exact hfirst
      · exact ih h page hp

theorem accepted_of_parse {bytes : List Byte} {mappingSize : Nat} {info : SlideInfo2}
    {pageExtrasCount : BitVec 32}
    (h : parseSlideInfo2 bytes mappingSize = .ok (info, pageExtrasCount)) :
    Accepted bytes mappingSize info pageExtrasCount := by
  unfold parseSlideInfo2 at h
  dsimp only at h
  split at h
  · cases h
  split at h
  swap
  · cases h
  next hgeometry =>
  split at h
  · cases h
  next htables =>
  split at h
  · cases h
  split at h
  swap
  · cases h
  next hspaced =>
  split at h
  · cases h
  next hpages =>
  obtain ⟨rfl, rfl⟩ := Prod.mk.inj (Except.ok.inj h)
  simp only [not_or, not_lt] at htables
  refine ⟨?_, by dsimp only; omega, by dsimp only; omega, hspaced.2, fun page hp => ?_⟩
  · dsimp only
    rw [← hgeometry.2.1, Nat.mul_comm]
    exact (Nat.mul_div_cancel' (Nat.dvd_of_mod_eq_zero hgeometry.2.2)).symm
  · exact checkPages_ok hpages page (List.mem_range.mpr hp)

/-! ## Distances -/

/-- The delta mask with all the bits that it may have. -/
def fullMask : BitVec 64 := 0xFFFFFFFFFFFFFFFC

theorem chainDelta_toNat (info : SlideInfo2) (raw : BitVec 64) :
    (chainDelta info raw).toNat = (raw &&& info.deltaMask).toNat / 2 ^ (countrZero info.deltaMask - 2) := by
  rw [chainDelta, BitVec.toNat_ushiftRight, Nat.shiftRight_eq_div_pow]

/-- The bits below the first one. -/
theorem getLsbD_of_lt_countrZero {mask : BitVec 64} {i : Nat} (h : i < countrZero mask) :
    mask.getLsbD i = false := by
  unfold countrZero at h
  have hinitial : ((List.range 64).takeWhile fun i => !mask.getLsbD i) <+: List.range 64 :=
    List.takeWhile_prefix _
  have hmem : i ∈ (List.range 64).takeWhile fun i => !mask.getLsbD i := by
    have hidx := hinitial.getElem h
    rw [List.getElem_range] at hidx
    rw [← hidx]
    exact List.getElem_mem h
  have hall : ((List.range 64).takeWhile fun i => !mask.getLsbD i).all fun i => !mask.getLsbD i :=
    List.all_takeWhile
  simpa using List.all_eq_true.mp hall i hmem

/-- A contiguous mask of 62 bits is the full one. -/
theorem normalized_full {m : Nat} (hlow : 2 ^ 61 ≤ m) (hhigh : m < 2 ^ 62) (hand : m &&& (m + 1) = 0) :
    m = 2 ^ 62 - 1 := by
  by_contra hne
  have hbit : (m &&& (m + 1)).testBit 61 = true := by
    rw [Nat.testBit_and, Nat.testBit_eq_decide_div_mod_eq, Nat.testBit_eq_decide_div_mod_eq]
    have h1 : m / 2 ^ 61 = 1 := by omega
    have h2 : (m + 1) / 2 ^ 61 = 1 := by omega
    rw [h1, h2]
    rfl
  rw [hand, Nat.zero_testBit] at hbit
  cases hbit

/-- No distance of another mask is large enough to wrap around. -/
theorem chainDelta_lt {info : SlideInfo2}
    (hcontiguous : info.deltaMask >>> countrZero info.deltaMask &&&
      (info.deltaMask >>> countrZero info.deltaMask + 1) = 0)
    (hfull : info.deltaMask ≠ fullMask) (raw : BitVec 64) :
    (chainDelta info raw).toNat < 2 ^ 63 := by
  have hle : (raw &&& info.deltaMask).toNat ≤ info.deltaMask.toNat := by
    rw [BitVec.toNat_and]
    exact Nat.and_le_right
  have hmask := info.deltaMask.isLt
  rw [chainDelta_toNat]
  by_cases htwo : countrZero info.deltaMask = 2
  · rw [htwo, Nat.sub_self, Nat.pow_zero, Nat.div_one]
    by_contra hlarge
    -- the top bit of the mask is set, so all of its bits are
    have hnorm : (info.deltaMask >>> countrZero info.deltaMask).toNat = info.deltaMask.toNat / 4 := by
      rw [htwo, BitVec.toNat_ushiftRight, Nat.shiftRight_eq_div_pow]
    have hand := congrArg BitVec.toNat hcontiguous
    rw [BitVec.toNat_and, BitVec.toNat_add, hnorm, show (1 : BitVec 64).toNat = 1 from rfl,
      Nat.mod_eq_of_lt (by omega)] at hand
    have hall := normalized_full (by omega) (by omega) hand
    have hlow : info.deltaMask.toNat % 4 = 0 := by
      have hbits : ∀ i < 2, info.deltaMask.getLsbD i = false := fun i hi =>
        getLsbD_of_lt_countrZero (by omega)
      have h0 := hbits 0 (by decide)
      have h1 := hbits 1 (by decide)
      rw [BitVec.getLsbD, Nat.testBit_eq_decide_div_mod_eq] at h0 h1
      simp only [decide_eq_false_iff_not] at h0 h1
      omega
    exact hfull (BitVec.eq_of_toNat_eq (by rw [show fullMask.toNat = 2 ^ 64 - 4 by decide]; omega))
  · have hthree : 3 ≤ countrZero info.deltaMask := by
      have := info.spaced.2
      omega
    have hpow : 2 ≤ 2 ^ (countrZero info.deltaMask - 2) := by
      calc 2 = 2 ^ 1 := rfl
        _ ≤ 2 ^ (countrZero info.deltaMask - 2) := Nat.pow_le_pow_right (by decide) (by omega)
    calc (raw &&& info.deltaMask).toNat / 2 ^ (countrZero info.deltaMask - 2)
        ≤ (raw &&& info.deltaMask).toNat / 2 := Nat.div_le_div_left hpow (by decide)
      _ < 2 ^ 63 := by omega

/-! ## Chains -/

section

variable {info : SlideInfo2} {slide : BitVec 64} {size page : Nat}

/-- The walk is the loop of `applyChain`. -/
theorem applyChain_of_chainWalk : ∀ {fuel : Nat} {pageOffset : BitVec 64} {bytes bytes' : Nat → Byte}
    {visits : List Visit} {error : Option String},
    chainWalk info slide size page fuel pageOffset bytes = some (visits, bytes', error) →
    applyChain info slide size page fuel pageOffset bytes = (bytes', error)
  | 0, _, _, _, _, _, h => by cases h
  | fuel + 1, pageOffset, bytes, bytes', visits, error, h => by
    unfold chainWalk at h
    unfold applyChain
    dsimp only at h ⊢
    split at h
    · next hout =>
      rw [if_pos hout]
      cases h
      rfl
    · next hout =>
      rw [if_neg hout]
      cases hread : readU64 size bytes (page * info.pageSize + pageOffset.toNat) with
      | error message =>
        rw [hread] at h
        cases h
        rfl
      | ok raw =>
        rw [hread] at h
        dsimp only at h ⊢
        cases hrebased : rebased info slide raw with
        | error message =>
          rw [hrebased] at h
          cases h
          rfl
        | ok value =>
          rw [hrebased] at h
          dsimp only at h ⊢
          split at h
          · next hzero =>
            rw [if_pos hzero]
            cases h
            rfl
          · next hzero =>
            rw [if_neg hzero]
            split at h
            · next hleaves =>
              rw [if_pos hleaves]
              cases h
              rfl
            · next hleaves =>
              rw [if_neg hleaves]
              split at h
              · cases h
              · next hrest =>
                cases h
                exact applyChain_of_chainWalk hrest

/-- More fuel changes nothing. -/
theorem chainWalk_mono : ∀ {fuel fuel' : Nat} {pageOffset : BitVec 64} {bytes : Nat → Byte}
    {result : List Visit × (Nat → Byte) × Option String}, fuel ≤ fuel' →
    chainWalk info slide size page fuel pageOffset bytes = some result →
    chainWalk info slide size page fuel' pageOffset bytes = some result
  | 0, _, _, _, _, _, h => by cases h
  | fuel + 1, 0, _, _, _, hle, _ => absurd hle (by omega)
  | fuel + 1, fuel' + 1, pageOffset, bytes, result, hle, h => by
    unfold chainWalk at h ⊢
    dsimp only at h ⊢
    split at h
    · next hout => rwa [if_pos hout]
    · next hout =>
      rw [if_neg hout]
      split at h
      · exact h
      · split at h
        · exact h
        · split at h
          · next hzero => rwa [if_pos hzero]
          · next hzero =>
            rw [if_neg hzero]
            split at h
            · next hleaves => rwa [if_pos hleaves]
            · next hleaves =>
              rw [if_neg hleaves]
              split at h
              · cases h
              · next hrest =>
                rw [chainWalk_mono (by omega) hrest]
                exact h

/-- Two walks with enough fuel are the same. -/
theorem chainWalk_unique {fuel fuel' : Nat} {pageOffset : BitVec 64} {bytes : Nat → Byte}
    {result result' : List Visit × (Nat → Byte) × Option String}
    (h : chainWalk info slide size page fuel pageOffset bytes = some result)
    (h' : chainWalk info slide size page fuel' pageOffset bytes = some result') :
    result = result' := by
  rcases le_total fuel fuel' with hle | hle
  · exact Option.some.inj ((chainWalk_mono hle h).symm.trans h')
  · exact Option.some.inj (h.symm.trans (chainWalk_mono hle h'))

/-- The word that the rebase makes of another. -/
def RebasesTo (info : SlideInfo2) (slide raw value : BitVec 64) : Prop :=
  rebased info slide raw = .ok value

/-- Where a slot is in the mapping. -/
def Visit.location (info : SlideInfo2) (page : Nat) (v : Visit) : Nat :=
  page * info.pageSize + v.offset

/-- What a chain has done when it ends. The slots that were written come first; all were if nothing
was thrown. -/
structure ChainSafe (info : SlideInfo2) (slide : BitVec 64) (page start : Nat) (bytes : Nat → Byte)
    (visits : List Visit) (bytes' : Nat → Byte) (error : Option String) : Prop where
  increasing : (visits.map Visit.offset).Pairwise (· < ·)
  after : ∀ v ∈ visits, start ≤ v.offset
  inPage : ∀ v ∈ visits, v.offset + 8 ≤ info.pageSize
  throws : ∀ v ∈ visits, info.pageSize - 8 < v.offset + (chainDelta info v.raw).toNat → error ≠ none
  early : info.pageSize - 8 < start → error ≠ none
  written : ∃ slots, slots <+: visits.map (Visit.location info page) ∧
    Rewrites (RebasesTo info slide) slots bytes bytes' ∧
    (error = none → slots = visits.map (Visit.location info page))

/-- A chain that stops before it writes anything. -/
theorem ChainSafe.stopped {start : Nat} {bytes : Nat → Byte} {visits : List Visit} {message : String}
    (hpage : ∀ v ∈ visits, v.offset = start ∧ v.offset + 8 ≤ info.pageSize)
    (hone : visits.length ≤ 1) :
    ChainSafe info slide page start bytes visits bytes (some message) where
  increasing := by
    rcases visits with _ | ⟨v, _ | _⟩
    · exact List.Pairwise.nil
    · exact List.pairwise_singleton _ _
    · simp at hone
  after v hv := (hpage v hv).1.ge
  inPage v hv := (hpage v hv).2
  throws _ _ _ := by simp
  early _ := by simp
  written := ⟨[], List.nil_prefix, rfl, by simp⟩

theorem guard_iff (info : SlideInfo2) (pageOffset : BitVec 64) :
    BitVec.ofNat 64 info.pageSize - 8 < pageOffset ↔ info.pageSize - 8 < pageOffset.toNat := by
  rw [info.geometry, BitVec.lt_def, show (BitVec.ofNat 64 guestPageSize - 8).toNat = 4088 by decide]
  rfl

/-- A slot of the chain is rewritten and the chain ends or throws there. -/
theorem ChainSafe.last {bytes : Nat → Byte} {v : Visit} {value : BitVec 64} {error : Option String}
    (hin : v.offset + 8 ≤ info.pageSize)
    (hraw : slotWord bytes (v.location info page) = v.raw) (hvalue : RebasesTo info slide v.raw value)
    (hend : chainDelta info v.raw = 0 ∨ error ≠ none) :
    ChainSafe info slide page v.offset bytes [v] (putWord bytes (v.location info page) value)
      error where
  increasing := List.pairwise_singleton _ _
  after u hu := (List.mem_singleton.mp hu) ▸ le_rfl
  inPage u hu := (List.mem_singleton.mp hu) ▸ hin
  throws u hu hout := by
    rw [List.mem_singleton.mp hu] at hout
    rcases hend with hzero | herror
    · rw [hzero, show (0 : BitVec 64).toNat = 0 from rfl] at hout
      omega
    · exact herror
  early hout := by omega
  written := ⟨[v.location info page], List.prefix_rfl, ⟨value, hraw ▸ hvalue, rfl⟩, fun _ => rfl⟩

/-- A slot is rewritten and the chain goes on. -/
theorem ChainSafe.cons {bytes bytes' : Nat → Byte} {v : Visit} {visits : List Visit}
    {value : BitVec 64} {error : Option String} {next : Nat} (hin : v.offset + 8 ≤ info.pageSize)
    (hraw : slotWord bytes (v.location info page) = v.raw) (hvalue : RebasesTo info slide v.raw value)
    (hnext : next = v.offset + (chainDelta info v.raw).toNat) (hlt : v.offset < next)
    (h : ChainSafe info slide page next (putWord bytes (v.location info page) value) visits bytes'
      error) :
    ChainSafe info slide page v.offset bytes (v :: visits) bytes' error where
  increasing := by
    refine List.pairwise_cons.mpr ⟨fun o ho => ?_, h.increasing⟩
    obtain ⟨u, hu, rfl⟩ := List.mem_map.mp ho
    exact hlt.trans_le (h.after u hu)
  after u hu := by
    rcases List.mem_cons.mp hu with rfl | hu
    · exact le_rfl
    · exact hlt.le.trans (h.after u hu)
  inPage u hu := by
    rcases List.mem_cons.mp hu with rfl | hu
    · exact hin
    · exact h.inPage u hu
  throws u hu hout := by
    rcases List.mem_cons.mp hu with rfl | hu
    · exact h.early (hnext ▸ hout)
    · exact h.throws u hu hout
  early hout := by omega
  written := by
    obtain ⟨slots, hinitial, hwrites, hall⟩ := h.written
    refine ⟨v.location info page :: slots, ?_, ⟨value, hraw ▸ hvalue, hwrites⟩, fun he => ?_⟩
    · exact List.cons_prefix_cons.mpr ⟨rfl, hinitial⟩
    · rw [hall he]
      rfl

/-- A chain without distances that wrap ends within the fuel of a page. -/
theorem chainWalk_safe (hdelta : ∀ raw, (chainDelta info raw).toNat < 2 ^ 63)
    (hsize : page * info.pageSize + info.pageSize ≤ size) :
    ∀ {fuel : Nat} {pageOffset : BitVec 64} {bytes : Nat → Byte}, 0 < fuel →
      info.pageSize ≤ fuel + pageOffset.toNat → ∃ visits bytes' error,
        chainWalk info slide size page fuel pageOffset bytes = some (visits, bytes', error) ∧
        ChainSafe info slide page pageOffset.toNat bytes visits bytes' error
  | 0, _, _, hpos, _ => absurd hpos (by omega)
  | fuel + 1, pageOffset, bytes, _, hfuel => by
    have hgeometry : info.pageSize = 4096 := info.geometry
    unfold chainWalk
    dsimp only
    by_cases hout : BitVec.ofNat 64 info.pageSize - 8 < pageOffset
    · rw [if_pos hout]
      exact ⟨_, _, _, rfl, .stopped (by simp) (by simp)⟩
    · rw [if_neg hout]
      rw [guard_iff] at hout
      have hin : pageOffset.toNat + 8 ≤ info.pageSize := by omega
      generalize hlocation : page * info.pageSize + pageOffset.toNat = location
      have hread : readU64 size bytes location = .ok (slotWord bytes location) :=
        if_neg (by omega)
      rw [hread]
      dsimp only
      obtain ⟨v, hv⟩ : ∃ v : Visit, v = ⟨pageOffset.toNat, slotWord bytes location⟩ := ⟨_, rfl⟩
      have hoffset : v.offset = pageOffset.toNat := by rw [hv]
      have hraw : v.raw = slotWord bytes location := by rw [hv]
      have hplace : v.location info page = location := by
        rw [Visit.location, hoffset, hlocation]
      rw [← hv, ← hraw]
      cases hrebased : rebased info slide v.raw with
      | error message =>
        refine ⟨_, _, _, rfl, .stopped (fun u hu => ?_) (by simp)⟩
        rw [List.mem_singleton.mp hu, hoffset]
        exact ⟨rfl, hin⟩
      | ok value =>
        dsimp only
        have hwrite : writeU64 bytes location value = putWord bytes (v.location info page) value := by
          rw [hplace]
          rfl
        rw [hwrite, ← hoffset]
        have hword : slotWord bytes (v.location info page) = v.raw := by rw [hplace, hraw]
        by_cases hzero : chainDelta info v.raw = 0
        · rw [if_pos hzero]
          exact ⟨_, _, _, rfl, .last (by omega) hword hrebased (.inl hzero)⟩
        · rw [if_neg hzero]
          by_cases hleaves : BitVec.ofNat 64 info.pageSize - chainDelta info v.raw < pageOffset
          · rw [if_pos hleaves]
            exact ⟨_, _, _, rfl, .last (by omega) hword hrebased (.inr (by simp))⟩
          · rw [if_neg hleaves]
            have hd := hdelta v.raw
            have hsum : (pageOffset + chainDelta info v.raw).toNat =
                v.offset + (chainDelta info v.raw).toNat := by
              rw [BitVec.toNat_add, Nat.mod_eq_of_lt (by omega), hoffset]
            have hpos : 0 < (chainDelta info v.raw).toNat :=
              Nat.pos_of_ne_zero fun h => hzero (BitVec.eq_of_toNat_eq h)
            obtain ⟨visits, bytes', error, hrest, hsafe⟩ : ∃ visits bytes' error,
                chainWalk info slide size page fuel (pageOffset + chainDelta info v.raw)
                  (putWord bytes (v.location info page) value) = some (visits, bytes', error) ∧
                ChainSafe info slide page (pageOffset + chainDelta info v.raw).toNat
                  (putWord bytes (v.location info page) value) visits bytes' error :=
              chainWalk_safe hdelta hsize (by omega) (by omega)
            rw [hrest]
            exact ⟨_, _, _, rfl, .cons (by omega) hword hrebased hsum (by omega) hsafe⟩

end

/-! ## Pages -/

section

variable {info : SlideInfo2} {slide : BitVec 64} {size page : Nat} {slideInfo : List Byte}

/-- What the chains of a page have done when the walk ends. -/
structure WalkSafe (info : SlideInfo2) (slide : BitVec 64) (page : Nat) (bytes : Nat → Byte)
    (w : PageWalk) : Prop where
  increasing : ∀ chain ∈ w.chains, (chain.map Visit.offset).Pairwise (· < ·)
  inPage : ∀ v ∈ w.chains.flatten, v.offset + 8 ≤ info.pageSize
  throws : ∀ v ∈ w.chains.flatten,
    info.pageSize - 8 < v.offset + (chainDelta info v.raw).toNat → w.error ≠ none
  written : ∃ slots, slots <+: w.chains.flatten.map (Visit.location info page) ∧
    Rewrites (RebasesTo info slide) slots bytes w.bytes ∧
    (w.error = none → slots = w.chains.flatten.map (Visit.location info page))

theorem WalkSafe.none {bytes : Nat → Byte} {w : PageWalk} (hchains : w.chains = [])
    (hbytes : w.bytes = bytes) : WalkSafe info slide page bytes w where
  increasing := by simp [hchains]
  inPage := by simp [hchains]
  throws := by simp [hchains]
  written := ⟨[], by simp, hbytes, by simp [hchains]⟩

theorem ChainSafe.walk {bytes : Nat → Byte} {start : Nat} {w : PageWalk} {visits : List Visit}
    (hchains : w.chains = [visits])
    (h : ChainSafe info slide page start bytes visits w.bytes w.error) :
    WalkSafe info slide page bytes w where
  increasing chain hc := by
    rw [hchains] at hc
    rw [List.mem_singleton.mp hc]
    exact h.increasing
  inPage := by simpa [hchains] using h.inPage
  throws := by simpa [hchains] using h.throws
  written := by simpa [hchains] using h.written

/-- A chain that ended without a throw, and the chains after it. -/
theorem ChainSafe.walk_cons {bytes bytes' : Nat → Byte} {start entry : Nat} {w : PageWalk}
    {visits : List Visit} (h : ChainSafe info slide page start bytes visits bytes' none)
    (hw : WalkSafe info slide page bytes' w) :
    WalkSafe info slide page bytes
      { w with chains := visits :: w.chains, entries := entry :: w.entries } where
  increasing chain hc := by
    rcases List.mem_cons.mp hc with rfl | hc
    · exact h.increasing
    · exact hw.increasing chain hc
  inPage v hv := by
    rw [List.flatten_cons] at hv
    rcases List.mem_append.mp hv with hv | hv
    · exact h.inPage v hv
    · exact hw.inPage v hv
  throws v hv hout := by
    rw [List.flatten_cons] at hv
    rcases List.mem_append.mp hv with hv | hv
    · exact absurd rfl (h.throws v hv hout)
    · exact hw.throws v hv hout
  written := by
    obtain ⟨slots, -, hwrites, hall⟩ := h.written
    obtain ⟨slots', hinitial, hwrites', hall'⟩ := hw.written
    rw [hall rfl] at hwrites
    refine ⟨_, ?_, hwrites.append hwrites', fun he => ?_⟩
    · rw [List.flatten_cons, List.map_append]
      exact List.prefix_append_right_inj _ |>.mpr hinitial
    · rw [hall' he, List.flatten_cons, List.map_append]

variable {pageExtrasCount : BitVec 32}

/-- The extras that the parser accepts are walked within its fuel, and all are in the table. -/
theorem extrasWalk_safe (slide : BitVec 64) (hdelta : ∀ raw, (chainDelta info raw).toNat < 2 ^ 63)
    (hsize : page * info.pageSize + info.pageSize ≤ size)
    (htable : info.pageExtrasOffset.toNat + pageExtrasCount.toNat * 2 ≤ slideInfo.length) :
    ∀ {fuel fuel' : Nat} {extraIndex : BitVec 32} (bytes : Nat → Byte), fuel ≤ fuel' →
      checkExtras slideInfo info.pageExtrasOffset pageExtrasCount.toNat info.pageSize fuel
        extraIndex.toNat = .ok () →
      ∃ w, extrasWalk slideInfo info slide size page info.pageSize fuel' extraIndex bytes = some w ∧
        applyExtras slideInfo info slide size page fuel' extraIndex bytes = (w.bytes, w.error) ∧
        WalkSafe info slide page bytes w ∧
        ∀ entry ∈ w.entries, entry + 2 ≤ slideInfo.length ∧
          ∃ k < pageExtrasCount.toNat, entry = info.pageExtrasOffset.toNat + k * 2
  | 0, _, _, _, _, h => by cases h
  | fuel + 1, 0, _, _, hle, _ => absurd hle (by omega)
  | fuel + 1, fuel' + 1, extraIndex, bytes, hle, h => by
    unfold checkExtras at h
    split at h
    swap
    · cases h
    next hindex =>
    split at h
    · cases h
    next extra hread =>
    split at h
    · cases h
    split at h
    · cases h
    have hentry : ∀ entry ∈ [info.pageExtrasOffset.toNat + extraIndex.toNat * 2],
        entry + 2 ≤ slideInfo.length ∧
          ∃ k < pageExtrasCount.toNat, entry = info.pageExtrasOffset.toNat + k * 2 := by
      intro entry he
      rw [List.mem_singleton.mp he]
      exact ⟨by omega, _, hindex, rfl⟩
    have hpos : 0 < info.pageSize := by
      rw [info.geometry]
      decide
    obtain ⟨visits, bytes1, error, hwalk, hsafe⟩ : ∃ visits bytes' error,
        chainWalk info slide size page info.pageSize (chainStart extra) bytes =
          some (visits, bytes', error) ∧
        ChainSafe info slide page (chainStart extra).toNat bytes visits bytes' error :=
      chainWalk_safe hdelta hsize hpos (by omega)
    have happly := applyChain_of_chainWalk hwalk
    unfold extrasWalk applyExtras
    dsimp only
    rw [hread]
    dsimp only
    rw [hwalk, happly]
    cases error with
    | some message => exact ⟨_, rfl, rfl, hsafe.walk rfl, hentry⟩
    | none =>
      dsimp only
      by_cases hlast : extra &&& 0x8000 ≠ 0
      · rw [if_pos hlast, if_pos hlast]
        exact ⟨_, rfl, rfl, hsafe.walk rfl, hentry⟩
      · rw [if_neg hlast] at h
        rw [if_neg hlast, if_neg hlast]
        have hnext : (extraIndex + 1).toNat = extraIndex.toNat + 1 := by
          have := pageExtrasCount.isLt
          rw [BitVec.toNat_add, show (1 : BitVec 32).toNat = 1 from rfl, Nat.mod_eq_of_lt (by omega)]
        rw [← hnext] at h
        obtain ⟨w, hw, happly', hsafe', hentries⟩ :=
          extrasWalk_safe slide hdelta hsize htable bytes1 (by omega : fuel ≤ fuel') h
        rw [hw, happly']
        refine ⟨_, rfl, rfl, hsafe.walk_cons hsafe', fun entry he => ?_⟩
        rcases List.mem_cons.mp he with rfl | he
        · exact hentry _ (List.mem_singleton_self _)
        · exact hentries entry he

/-- The slots of a page are on it. -/
theorem div_of_mem_slot {slot i : Nat} (h : slot + 8 ≤ info.pageSize)
    (hi : ¬(i < page * info.pageSize + slot ∨ page * info.pageSize + slot + 8 ≤ i)) :
    i / info.pageSize = page := by
  obtain ⟨k, rfl⟩ : ∃ k, i = page * info.pageSize + slot + k := ⟨i - (page * info.pageSize + slot), by omega⟩
  exact div_location (by omega)

/-- The word that a rebase writes. -/
theorem RebasesTo.value {raw value : BitVec 64} (h : RebasesTo info slide raw value) :
    if raw &&& ~~~info.deltaMask = 0 then value = 0
    else (raw &&& ~~~info.deltaMask).toNat + info.valueAdd.toNat + slide.toNat < 2 ^ 64 ∧
      value = (raw &&& ~~~info.deltaMask) + info.valueAdd + slide := by
  unfold RebasesTo rebased at h
  dsimp only at h
  generalize raw &&& ~~~info.deltaMask = base at h ⊢
  by_cases hzero : base = 0
  · rw [if_pos hzero] at h ⊢
    exact (Except.ok.inj h).symm.trans hzero
  · rw [if_neg hzero] at h ⊢
    split at h
    · cases h
    · next hfits =>
      simp only [not_or, BitVec.lt_def, not_lt] at hfits
      have hsub : ∀ b : BitVec 64, (BitVec.allOnes 64 - b).toNat = 2 ^ 64 - 1 - b.toNat := by
        intro b
        have hb := b.isLt
        rw [BitVec.toNat_sub_of_le, BitVec.toNat_allOnes]
        rw [BitVec.le_def, BitVec.toNat_allOnes]
        omega
      rw [hsub, hsub, BitVec.toNat_add] at hfits
      have hadd := info.valueAdd.isLt
      have hslide := slide.isLt
      refine ⟨?_, ?_⟩
      · obtain ⟨h1, h2⟩ := hfits
        rw [Nat.mod_eq_of_lt (by omega)] at h2
        omega
      · rw [← Except.ok.inj h, BitVec.add_assoc]

/-- A walk that is safe, with its entries, is what the claim of a page asks for. -/
theorem WalkSafe.follows {bytes : Nat → Byte} (chainFuel extrasFuel : Nat) (w : PageWalk)
    (hsize : page * info.pageSize + info.pageSize ≤ size)
    (hwalk : pageWalk slideInfo info slide size bytes page chainFuel extrasFuel = some w)
    (happly : applySlideInfo2Page slideInfo info slide size bytes page = (w.bytes, w.error))
    (hentries : ∀ entry ∈ w.entries, entry + 2 ≤ slideInfo.length ∧
      (entry = info.pageStartsOffset.toNat + page * 2 ∨
        ∃ k < pageExtrasCount.toNat, entry = info.pageExtrasOffset.toNat + k * 2))
    (h : WalkSafe info slide page bytes w) :
    FollowsSafely slideInfo info pageExtrasCount slide size bytes page := by
  refine ⟨chainFuel, extrasFuel, w, hwalk, happly, hentries, h.increasing, fun v hv => ?_, ?_,
    h.throws, fun hnone hapart => ?_⟩
  · have := h.inPage v hv
    omega
  · obtain ⟨slots, hinitial, hwrites, -⟩ := h.written
    intro i hi
    refine hwrites.outside fun slot hs => ?_
    obtain ⟨v, hv, rfl⟩ := List.mem_map.mp (hinitial.subset hs)
    by_contra hin
    exact hi (div_of_mem_slot (h.inPage v hv) hin)
  · obtain ⟨slots, -, hwrites, hall⟩ := h.written
    rw [hall hnone] at hwrites
    have hplaces : Apart (w.chains.flatten.map (Visit.location info page)) := by
      unfold Apart at hapart ⊢
      rw [List.pairwise_map] at hapart ⊢
      refine hapart.imp fun {a b} hab => ?_
      simp only [Visit.location]
      omega
    refine ⟨fun v hv => ?_, fun i hi => ?_⟩
    · exact (hwrites.inside hplaces _ (List.mem_map_of_mem hv)).value
    · refine hwrites.outside fun slot hs => ?_
      obtain ⟨v, hv, rfl⟩ := List.mem_map.mp hs
      exact hi v hv

/-- No page has a chain. -/
def NoChains (slideInfo : List Byte) (info : SlideInfo2) : Prop :=
  ∀ page < info.pageStartsCount.toNat, ∀ start,
    readU16 slideInfo (info.pageStartsOffset.toNat + page * 2) = .ok start →
    start &&& 0xC000 = 0x4000

variable {mappingSize : Nat}

theorem Accepted.pageInside (ha : Accepted slideInfo mappingSize info pageExtrasCount)
    (hp : page < info.pageStartsCount.toNat) :
    page * info.pageSize + info.pageSize ≤ mappingSize := by
  rw [ha.pages, ← Nat.succ_mul]
  exact Nat.mul_le_mul_right _ hp

/-- A page is followed safely if no distance wraps or the page has no chain. -/
theorem Accepted.follows (ha : Accepted slideInfo mappingSize info pageExtrasCount)
    (hp : page < info.pageStartsCount.toNat)
    (hok : (∀ raw, (chainDelta info raw).toNat < 2 ^ 63) ∨ NoChains slideInfo info)
    (slide : BitVec 64) (bytes : Nat → Byte) :
    FollowsSafely slideInfo info pageExtrasCount slide mappingSize bytes page := by
  have hsize := ha.pageInside hp
  have hstarts := ha.starts
  have hcheck := ha.checked page hp
  have hentry : ∀ entry ∈ [info.pageStartsOffset.toNat + page * 2],
      entry + 2 ≤ slideInfo.length ∧ (entry = info.pageStartsOffset.toNat + page * 2 ∨
        ∃ k < pageExtrasCount.toNat, entry = info.pageExtrasOffset.toNat + k * 2) := by
    intro entry he
    rw [List.mem_singleton.mp he]
    exact ⟨by omega, .inl rfl⟩
  have hpos : 0 < info.pageSize := by
    rw [info.geometry]
    decide
  unfold checkPage at hcheck
  split at hcheck
  · cases hcheck
  next start hread =>
  dsimp only at hcheck
  by_cases hnone : start &&& 0xC000 = 0x4000
  · refine WalkSafe.follows 0 0 ⟨[], _, bytes, none⟩ hsize ?_ ?_ hentry (.none rfl rfl)
    · simp only [pageWalk, if_neg (not_le.mpr hp), hread, if_pos hnone]
    · simp only [applySlideInfo2Page, if_neg (not_le.mpr hp), hread, if_pos hnone]
  · have hdelta := hok.resolve_right fun h => hnone (h page hp start hread)
    rw [if_neg hnone] at hcheck
    by_cases hzero : start &&& 0xC000 = 0
    · obtain ⟨visits, bytes1, error, hwalk, hsafe⟩ : ∃ visits bytes' error,
          chainWalk info slide mappingSize page info.pageSize (chainStart start) bytes =
            some (visits, bytes', error) ∧
          ChainSafe info slide page (chainStart start).toNat bytes visits bytes' error :=
        chainWalk_safe hdelta hsize hpos (by omega)
      refine WalkSafe.follows info.pageSize 0 ⟨[visits], _, bytes1, error⟩ hsize ?_ ?_ hentry (hsafe.walk rfl)
      · simp only [pageWalk, if_neg (not_le.mpr hp), hread, if_neg hnone, if_pos hzero, hwalk]
      · simp only [applySlideInfo2Page, if_neg (not_le.mpr hp), hread, if_neg hnone, if_pos hzero,
          applyChain_of_chainWalk hwalk]
    · rw [if_neg hzero] at hcheck
      split at hcheck
      · cases hcheck
      have hindex : ((start &&& 0x3FFF).setWidth 32).toNat = (start &&& 0x3FFF).toNat :=
        BitVec.toNat_setWidth_of_le (by decide)
      rw [← hindex] at hcheck
      have hfuel : pageExtrasCount.toNat + 1 ≤ slideInfo.length + 1 := by
        have := ha.extras
        omega
      obtain ⟨w, hw, happly, hsafe, hentries⟩ :=
        extrasWalk_safe slide hdelta hsize ha.extras bytes hfuel hcheck
      refine WalkSafe.follows info.pageSize (slideInfo.length + 1)
        { w with entries := (info.pageStartsOffset.toNat + page * 2) :: w.entries } hsize ?_ ?_
        (fun entry he => ?_) ⟨hsafe.increasing, hsafe.inPage, hsafe.throws, hsafe.written⟩
      · simp only [pageWalk, if_neg (not_le.mpr hp), hread, if_neg hnone, if_neg hzero, hw]
      · simp only [applySlideInfo2Page, if_neg (not_le.mpr hp), hread, if_neg hnone, if_neg hzero,
          happly]
      · rcases List.mem_cons.mp he with rfl | he
        · exact hentry _ (List.mem_singleton_self _)
        · exact ⟨(hentries entry he).1, .inr (hentries entry he).2⟩

end

/-! ## Chains that go back -/

section

variable {info : SlideInfo2} {size page : Nat} {bytes : Nat → Byte}

theorem putWord_zero (offset i : Nat) :
    putWord bytes offset 0 i = if offset ≤ i ∧ i < offset + 8 then 0 else bytes i := by
  split
  · next h =>
    obtain ⟨k, rfl⟩ : ∃ k, i = offset + k := ⟨i - offset, by omega⟩
    have hk : k < (littleEndian 8 (0 : BitVec 64)).length := by
      rw [length_littleEndian]
      omega
    rw [putWord, AddressSpace.overwrite_of_mem hk]
    have hzero : ∀ n : Nat, ((0 : BitVec 64) >>> n).setWidth 8 = 0 := by
      intro n
      rw [show ((0 : BitVec 64) >>> n) = 0#64 from BitVec.zero_ushiftRight]
      exact BitVec.setWidth_zero _ _
    simp only [littleEndian, List.getElem_map]
    exact hzero _
  · exact putWord_outside (by omega)

theorem slotWord_zero {offset : Nat} (h : ∀ i, offset ≤ i → i < offset + 8 → bytes i = 0) :
    slotWord bytes offset = 0 := by
  have hsame : slotWord bytes offset = slotWord (putWord bytes offset 0) offset := by
    refine slotWord_congr fun k hk => ?_
    rw [putWord_zero, if_pos (by omega), h _ (by omega) (by omega)]
  rw [hsame, slotWord_putWord]

/-- With the full mask a word without its two low bits is only a distance. -/
theorem chainDelta_full (hfull : info.deltaMask = fullMask) (raw : BitVec 64) :
    chainDelta info raw = raw &&& fullMask := by
  rw [chainDelta, hfull, show countrZero fullMask - 2 = 0 by decide]
  exact BitVec.ushiftRight_zero _

/-- A step of a chain over such a word. -/
theorem chainWalk_full (raw : BitVec 64) (hfull : info.deltaMask = fullMask)
    (hsize : page * info.pageSize + info.pageSize ≤ size) {fuel : Nat} {pageOffset : BitVec 64}
    (hin : pageOffset.toNat + 8 ≤ info.pageSize)
    (hraw : slotWord bytes (page * info.pageSize + pageOffset.toNat) = raw)
    (hplain : raw &&& ~~~fullMask = 0) (hne : raw ≠ 0)
    (hguard : ¬BitVec.ofNat 64 info.pageSize - raw < pageOffset) :
    chainWalk info 0 size page (fuel + 1) pageOffset bytes =
      match chainWalk info 0 size page fuel (pageOffset + raw)
          (putWord bytes (page * info.pageSize + pageOffset.toNat) 0) with
      | none => none
      | some (visits, bytes, error) => some (⟨pageOffset.toNat, raw⟩ :: visits, bytes, error) := by
  have hgeometry : info.pageSize = 4096 := info.geometry
  have hout : ¬BitVec.ofNat 64 info.pageSize - 8 < pageOffset := by
    rw [guard_iff]
    omega
  have hread : readU64 size bytes (page * info.pageSize + pageOffset.toNat) = .ok raw := by
    rw [← hraw]
    exact if_neg (by omega)
  have hdelta : chainDelta info raw = raw := by
    rw [chainDelta_full hfull]
    have hsplit : raw = (raw &&& fullMask) ||| (raw &&& ~~~fullMask) := by
      rw [← BitVec.and_or_distrib_left, show fullMask ||| ~~~fullMask = BitVec.allOnes 64 by decide,
        BitVec.and_allOnes]
    rw [hplain, show (0 : BitVec 64) = 0#64 from rfl, BitVec.or_zero] at hsplit
    exact hsplit.symm
  have hrebased : rebased info 0 raw = .ok 0 := by
    simp only [rebased, hfull, hplain, if_true]
  rw [chainWalk, if_neg hout]
  dsimp only
  rw [hread]
  dsimp only
  rw [hrebased]
  dsimp only
  rw [hdelta, if_neg hne, if_neg hguard]
  rfl

/-- A chain ends at a word of zeros. -/
theorem chainWalk_zero (hsize : page * info.pageSize + info.pageSize ≤ size) {fuel : Nat}
    {pageOffset : BitVec 64} (hin : pageOffset.toNat + 8 ≤ info.pageSize)
    (hraw : slotWord bytes (page * info.pageSize + pageOffset.toNat) = 0) :
    ∃ bytes', chainWalk info 0 size page (fuel + 1) pageOffset bytes =
      some ([⟨pageOffset.toNat, 0⟩], bytes', none) := by
  have hgeometry : info.pageSize = 4096 := info.geometry
  have hout : ¬BitVec.ofNat 64 info.pageSize - 8 < pageOffset := by
    rw [guard_iff]
    omega
  have hread : readU64 size bytes (page * info.pageSize + pageOffset.toNat) = .ok 0 := by
    rw [← hraw]
    exact if_neg (by omega)
  have hdelta : chainDelta info 0 = 0 := by
    rw [chainDelta, show (0 : BitVec 64) &&& info.deltaMask = 0 from BitVec.zero_and]
    exact BitVec.zero_ushiftRight
  have hrebased : rebased info 0 0 = .ok 0 := by
    simp only [rebased, show (0 : BitVec 64) &&& ~~~info.deltaMask = 0 from BitVec.zero_and, if_true]
  rw [chainWalk, if_neg hout]
  dsimp only
  rw [hread]
  dsimp only
  rw [hrebased]
  dsimp only
  rw [hdelta, if_pos rfl]
  exact ⟨_, rfl⟩

/-- Four bytes back, written as a distance. -/
theorem back_four {pageOffset : BitVec 64} (h : 4 ≤ pageOffset.toNat) :
    (pageOffset + fullMask).toNat = pageOffset.toNat - 4 := by
  have hlt := pageOffset.isLt
  rw [BitVec.toNat_add, show fullMask.toNat = 2 ^ 64 - 4 by decide]
  omega

theorem guard_back (info : SlideInfo2) {pageOffset : BitVec 64}
    (h : pageOffset.toNat + 8 ≤ info.pageSize) :
    ¬BitVec.ofNat 64 info.pageSize - fullMask < pageOffset := by
  have hgeometry : info.pageSize = 4096 := info.geometry
  rw [hgeometry] at h ⊢
  rw [BitVec.lt_def, show (BitVec.ofNat 64 4096 - fullMask).toNat = 4100 by decide]
  omega

/-- Wherever a chain starts on a page, there are contents for which it goes back. -/
theorem exists_backwards (hfull : info.deltaMask = fullMask)
    (hsize : page * info.pageSize + info.pageSize ≤ size) {pageOffset : BitVec 64}
    (hin : pageOffset.toNat + 8 ≤ info.pageSize) (hstart : pageOffset.toNat = 0 ∨ 4 ≤ pageOffset.toNat) :
    ∃ (bytes : Nat → Byte) (fuel : Nat) (visits : List Visit) (bytes' : Nat → Byte)
      (error : Option String),
      chainWalk info 0 size page fuel pageOffset bytes = some (visits, bytes', error) ∧
      ¬(visits.map Visit.offset).Pairwise (· < ·) := by
  have hgeometry : info.pageSize = 4096 := info.geometry
  have hone : fullMask &&& ~~~fullMask = 0 := by decide
  generalize hbase : page * info.pageSize = base at hsize
  rcases hstart with h0 | h4
  · -- eight bytes on, four bytes back
    obtain rfl : pageOffset = 0 := BitVec.eq_of_toNat_eq h0
    let bytes : Nat → Byte := putWord (putWord (fun _ => 0) base 8) (base + 8) fullMask
    have hfirst : slotWord bytes base = 8 := by
      rw [slotWord_putWord_of_apart (by omega), slotWord_putWord]
    have hsecond : slotWord (putWord bytes base 0) (base + 8) = fullMask := by
      rw [slotWord_putWord_of_apart (by omega), slotWord_putWord]
    have hthird : slotWord (putWord (putWord bytes base 0) (base + 8) 0) (base + 4) = 0 := by
      refine slotWord_zero fun i h1 h2 => ?_
      rw [putWord_zero, putWord_zero]
      split
      · rfl
      · rw [if_pos (by omega)]
    obtain ⟨bytes', hend⟩ : ∃ bytes', chainWalk info 0 size page 1 (8 + fullMask)
        (putWord (putWord bytes base 0) (base + 8) 0) = some ([⟨4, 0⟩], bytes', none) := by
      refine chainWalk_zero (hbase ▸ hsize) ?_ ?_
      · rw [show ((8 : BitVec 64) + fullMask).toNat = 4 by decide]
        omega
      · rw [hbase, show ((8 : BitVec 64) + fullMask).toNat = 4 by decide]
        exact hthird
    have hmiddle : chainWalk info 0 size page 2 8 (putWord bytes base 0) =
        some ([⟨8, fullMask⟩, ⟨4, 0⟩], bytes', none) := by
      rw [chainWalk_full fullMask hfull (hbase ▸ hsize) (by rw [hgeometry]; decide)
        (by rw [hbase]; exact hsecond) hone (by decide) (guard_back info (by rw [hgeometry]; decide))]
      rw [hbase, show (8 : BitVec 64).toNat = 8 from rfl, hend]
    refine ⟨bytes, 3, [⟨0, 8⟩, ⟨8, fullMask⟩, ⟨4, 0⟩], bytes', none, ?_, by decide⟩
    rw [chainWalk_full 8 hfull (hbase ▸ hsize) (by rw [hgeometry]; decide)
      (by rw [hbase]; exact hfirst) (by decide) (by decide) (by rw [hgeometry]; decide)]
    rw [hbase, show (0 : BitVec 64).toNat = 0 from rfl, Nat.add_zero,
      show (0 : BitVec 64) + 8 = 8 from rfl, hmiddle]
  · let bytes : Nat → Byte := putWord (fun _ => 0) (base + pageOffset.toNat) fullMask
    have hsecond : slotWord (putWord bytes (base + pageOffset.toNat) 0)
        (base + (pageOffset.toNat - 4)) = 0 := by
      refine slotWord_zero fun i h1 h2 => ?_
      rw [putWord_zero]
      split
      · rfl
      · exact putWord_outside (by omega)
    obtain ⟨bytes', hend⟩ : ∃ bytes', chainWalk info 0 size page 1 (pageOffset + fullMask)
        (putWord bytes (base + pageOffset.toNat) 0) =
          some ([⟨(pageOffset + fullMask).toNat, 0⟩], bytes', none) := by
      refine chainWalk_zero (hbase ▸ hsize) ?_ ?_
      · rw [back_four h4]
        omega
      · rw [hbase, back_four h4]
        exact hsecond
    refine ⟨bytes, 2, [⟨pageOffset.toNat, fullMask⟩, ⟨(pageOffset + fullMask).toNat, 0⟩], bytes',
      none, ?_, ?_⟩
    · rw [chainWalk_full fullMask hfull (hbase ▸ hsize) hin
        (by rw [hbase]; exact slotWord_putWord) hone (by decide) (guard_back info hin)]
      rw [hbase, hend]
    · rw [back_four h4]
      simp only [List.map_cons, List.map_nil, List.pairwise_cons, List.mem_singleton, forall_eq]
      omega

end

/-! ## The exact condition -/

section

variable {slideInfo : List Byte} {mappingSize : Nat} {info : SlideInfo2}
  {pageExtrasCount : BitVec 32}

theorem toNat_chainStart (start : BitVec 16) :
    (chainStart start).toNat = (start &&& 0x3FFF).toNat * 4 := by
  have hlt : (start &&& 0x3FFF).toNat < 2 ^ 16 := (start &&& 0x3FFF).isLt
  rw [chainStart, BitVec.toNat_mul, BitVec.toNat_setWidth_of_le (by decide),
    show (4 : BitVec 64).toNat = 4 from rfl, Nat.mod_eq_of_lt (by omega)]

theorem and_indexMask {start : BitVec 16} (h : start &&& 0xC000 = 0) : start &&& 0x3FFF = start := by
  have hsplit : start = (start &&& 0x3FFF) ||| (start &&& 0xC000) := by
    rw [← BitVec.and_or_distrib_left, show (0x3FFF : BitVec 16) ||| 0xC000 = BitVec.allOnes 16 by decide,
      BitVec.and_allOnes]
  rw [h, show (0 : BitVec 16) = 0#16 from rfl, BitVec.or_zero] at hsplit
  exact hsplit.symm

/-- The first chain of a page that has one. -/
theorem Accepted.firstChain (ha : Accepted slideInfo mappingSize info pageExtrasCount) {page : Nat}
    (hp : page < info.pageStartsCount.toNat) {start : BitVec 16}
    (hread : readU16 slideInfo (info.pageStartsOffset.toNat + page * 2) = .ok start)
    (hchain : start &&& 0xC000 ≠ 0x4000) :
    ∃ first : BitVec 16, (chainStart first).toNat + 8 ≤ info.pageSize ∧
      ∀ slide size bytes chainFuel extrasFuel w,
        pageWalk slideInfo info slide size bytes page chainFuel extrasFuel = some w →
        ∃ visits bytes' error,
          chainWalk info slide size page chainFuel (chainStart first) bytes =
            some (visits, bytes', error) ∧ visits ∈ w.chains := by
  have hgeometry : info.pageSize = 4096 := info.geometry
  have hcheck := ha.checked page hp
  unfold checkPage at hcheck
  rw [hread] at hcheck
  dsimp only at hcheck
  rw [if_neg hchain] at hcheck
  by_cases hzero : start &&& 0xC000 = 0
  · rw [if_pos hzero] at hcheck
    split at hcheck
    · cases hcheck
    next hin =>
    refine ⟨start, ?_, fun slide size bytes chainFuel extrasFuel w hw => ?_⟩
    · rw [toNat_chainStart, and_indexMask hzero]
      omega
    · simp only [pageWalk, if_neg (not_le.mpr hp), hread, if_neg hchain, if_pos hzero] at hw
      split at hw
      · cases hw
      · next visits bytes' error hwalk =>
        cases hw
        exact ⟨visits, bytes', error, hwalk, List.mem_singleton_self _⟩
  · rw [if_neg hzero] at hcheck
    split at hcheck
    · cases hcheck
    unfold checkExtras at hcheck
    split at hcheck
    swap
    · cases hcheck
    split at hcheck
    · cases hcheck
    next extra hextra =>
    split at hcheck
    · cases hcheck
    split at hcheck
    · cases hcheck
    next hin =>
    refine ⟨extra, ?_, fun slide size bytes chainFuel extrasFuel w hw => ?_⟩
    · rw [toNat_chainStart]
      omega
    · simp only [pageWalk, if_neg (not_le.mpr hp), hread, if_neg hchain, if_neg hzero] at hw
      split at hw
      · cases hw
      next w' hextras =>
      have hindex : ((start &&& 0x3FFF).setWidth 32).toNat = (start &&& 0x3FFF).toNat :=
        BitVec.toNat_setWidth_of_le (by decide)
      cases extrasFuel with
      | zero => cases hextras
      | succ fuel =>
        unfold extrasWalk at hextras
        dsimp only at hextras
        rw [hindex, hextra] at hextras
        dsimp only at hextras
        split at hextras
        · cases hextras
        · next visits bytes' message hwalk =>
          cases hextras
          cases hw
          exact ⟨visits, bytes', _, hwalk, List.mem_singleton_self _⟩
        · next visits bytes' hwalk =>
          refine ⟨visits, bytes', none, hwalk, ?_⟩
          split at hextras
          · cases hextras
            cases hw
            exact List.mem_singleton_self _
          · split at hextras
            · cases hextras
            · cases hextras
              cases hw
              exact List.mem_cons_self

/-- Every page of an accepted blob is followed safely, for every slide and all contents, if and only
if the delta mask is not the full one or no page has a chain. -/
theorem followsSafely_iff
    (hparse : parseSlideInfo2 slideInfo mappingSize = .ok (info, pageExtrasCount)) :
    (∀ (slide : BitVec 64) (bytes : Nat → Byte), ∀ page < info.pageStartsCount.toNat,
        FollowsSafely slideInfo info pageExtrasCount slide mappingSize bytes page) ↔
      info.deltaMask ≠ fullMask ∨ NoChains slideInfo info := by
  have ha := accepted_of_parse hparse
  constructor
  · intro hall
    rw [or_iff_not_imp_left, not_not]
    intro hfull page hp start hread
    by_contra hchain
    obtain ⟨first, hin, hfirst⟩ := ha.firstChain hp hread hchain
    have hstart : (chainStart first).toNat = 0 ∨ 4 ≤ (chainStart first).toNat := by
      rw [toNat_chainStart]
      omega
    obtain ⟨bytes, fuel, visits, bytes', error, hwalk, hback⟩ :=
      exists_backwards hfull (ha.pageInside hp) hin hstart
    obtain ⟨chainFuel, extrasFuel, w, hw, -, -, hincreasing, -⟩ := hall 0 bytes page hp
    obtain ⟨visits', bytes'', error', hwalk', hmem⟩ := hfirst 0 mappingSize bytes _ _ w hw
    have hsame := chainWalk_unique hwalk hwalk'
    have hvisits : visits = visits' := congrArg Prod.fst hsame
    exact hback (hvisits ▸ hincreasing visits' hmem)
  · intro hok slide bytes page hp
    exact ha.follows hp (hok.imp (fun hne => chainDelta_lt ha.contiguous hne) id) slide bytes

end

/-- Slide info for one page with a chain that starts at `start` and a delta mask. -/
def onePage (deltaMask : BitVec 64) (start : BitVec 16) : List Byte :=
  littleEndian 4 (2 : BitVec 32) ++ littleEndian 4 (4096 : BitVec 32) ++
    littleEndian 4 (40 : BitVec 32) ++ littleEndian 4 (1 : BitVec 32) ++
    littleEndian 4 (42 : BitVec 32) ++ littleEndian 4 (0 : BitVec 32) ++
    littleEndian 8 deltaMask ++ littleEndian 8 (0 : BitVec 64) ++ littleEndian 2 start

theorem pageSize_geometry : 4096 = guestPageSize := rfl

theorem usualMask_spaced :
    (0x00FFFF0000000000 : BitVec 64) ≠ 0 ∧ 2 ≤ countrZero 0x00FFFF0000000000 := by
  decide

/-- The mask of the shared caches that dyld builds. -/
def usualInfo : SlideInfo2 where
  pageSize := 4096
  pageStartsOffset := 40
  pageStartsCount := 1
  pageExtrasOffset := 42
  deltaMask := 0x00FFFF0000000000
  valueAdd := 0
  geometry := pageSize_geometry
  spaced := usualMask_spaced

theorem followsSafely_usual :
    parseSlideInfo2 (onePage 0x00FFFF0000000000 1) 4096 = .ok (usualInfo, 0) ∧
      ∀ (slide : BitVec 64) (bytes : Nat → Byte),
        FollowsSafely (onePage 0x00FFFF0000000000 1) usualInfo 0 slide 4096 bytes 0 := by
  have hparse : parseSlideInfo2 (onePage 0x00FFFF0000000000 1) 4096 = .ok (usualInfo, 0) := by rfl
  refine ⟨hparse, fun slide bytes => ?_⟩
  exact (followsSafely_iff hparse).mpr (.inl (by decide)) slide bytes 0 (by decide)

def fullInfo : SlideInfo2 := { usualInfo with deltaMask := fullMask, spaced := by decide }

/-- A word at the second slot of the page, which sends the chain back by four bytes. -/
def backwardsPage : Nat → Byte := putWord (fun _ => 0) 4 fullMask

/-- The chain visits its second slot and then the first. -/
theorem not_followsSafely_backwards :
    parseSlideInfo2 (onePage fullMask 1) 4096 = .ok (fullInfo, 0) ∧
      ¬FollowsSafely (onePage fullMask 1) fullInfo 0 0 4096 backwardsPage 0 := by
  refine ⟨by rfl, ?_⟩
  rintro ⟨chainFuel, extrasFuel, w, hw, -, -, hincreasing, -⟩
  have hpage : ¬fullInfo.pageStartsCount.toNat ≤ 0 := by decide
  have hread : readU16 (onePage fullMask 1) (fullInfo.pageStartsOffset.toNat + 0 * 2) = .ok 1 := by
    rfl
  have hwalk : (chainWalk fullInfo 0 4096 0 2 (chainStart 1) backwardsPage).map
      (fun result => result.1.map Visit.offset) = some [4, 0] := by decide +kernel
  obtain ⟨result, hresult, hoffsets⟩ := Option.map_eq_some_iff.mp hwalk
  have hchains : ∃ visits bytes' error,
      chainWalk fullInfo 0 4096 0 chainFuel (chainStart 1) backwardsPage =
        some (visits, bytes', error) ∧ visits ∈ w.chains := by
    simp only [pageWalk, if_neg hpage, hread] at hw
    rw [if_neg (by decide), if_pos (by decide)] at hw
    split at hw
    · cases hw
    · next visits bytes' error hchain =>
      cases hw
      exact ⟨visits, bytes', error, hchain, List.mem_singleton_self _⟩
  obtain ⟨visits, bytes', error, hchain, hmem⟩ := hchains
  have hsame : result.1 = visits := congrArg Prod.fst (chainWalk_unique hresult hchain)
  have := hincreasing visits hmem
  rw [← hsame, hoffsets] at this
  exact absurd this (by decide)

end Darwin

end Rosa
