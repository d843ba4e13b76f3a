import Rosa.Guest.TransformedImage
import Rosa.Guest.WrittenBytes

/-!
# Slide info of the shared cache

`applySlideInfo2Page` of `darwin/SharedCache.cpp`, the callback of every lazy transform. A
page holds chains of pointers : each pointer carries the distance to the next one in the
bits of the delta mask, and is rebased in place when the chain reaches it. The callback
works on its page alone, but the checks of a chain come after the pointers before them were
written. The next use of such a page starts over : the pointers that were rebased carry no
distance any more, so the chain ends at the first one, which is rebased a second time.
-/

namespace Rosa

namespace Darwin

/-- `std::countr_zero`. -/
def countrZero (mask : BitVec 64) : Nat :=
  ((List.range 64).takeWhile fun i => !mask.getLsbD i).length

/-- `SlideInfo2`, with the checks of `parseSlideInfo2` that the callback relies on. -/
structure SlideInfo2 where
  pageSize : Nat
  pageStartsOffset : BitVec 32
  pageStartsCount : BitVec 32
  pageExtrasOffset : BitVec 32
  deltaMask : BitVec 64
  valueAdd : BitVec 64
  geometry : pageSize = guestPageSize
  spaced : deltaMask ≠ 0 ∧ 2 ≤ countrZero deltaMask

/-- `readU16`. -/
def readU16 (bytes : List Byte) (offset : Nat) : Except String (BitVec 16) :=
  if bytes.length < offset ∨ bytes.length - offset < 2 then
    .error "dyld shared cache slide field is truncated"
  else .ok (ofLittleEndian 16 2 (bytes.drop offset))

/-- `readU64` of a span of `size` bytes. -/
def readU64 (size : Nat) (bytes : Nat → Byte) (offset : Nat) : Except String (BitVec 64) :=
  if size < offset ∨ size - offset < 8 then
    .error "dyld shared cache header field is truncated"
  else .ok (ofLittleEndian 64 8 (bytesAt bytes offset 8))

/-- `writeU64`. -/
def writeU64 (bytes : Nat → Byte) (offset : Nat) (value : BitVec 64) : Nat → Byte :=
  overwrite bytes offset (littleEndian 8 value)

/-- The pointer after the rebase. -/
def rebased (info : SlideInfo2) (slide raw : BitVec 64) : Except String (BitVec 64) :=
  let value := raw &&& ~~~info.deltaMask
  if value = 0 then .ok value
  else if BitVec.allOnes 64 - info.valueAdd < value ∨
      BitVec.allOnes 64 - slide < value + info.valueAdd then
    .error "dyld shared cache rebased pointer overflows"
  else .ok (value + (info.valueAdd + slide))

/-- The distance to the next pointer of the chain. -/
def chainDelta (info : SlideInfo2) (raw : BitVec 64) : BitVec 64 :=
  (raw &&& info.deltaMask) >>> (countrZero info.deltaMask - 2)

/-- The loop of `applyChain`. A distance within the page moves the chain on by four bytes
at least, so it has left the page before the fuel is used up; the fuel cuts chains that go
back by distances that wrap around. -/
def applyChain (info : SlideInfo2) (slide : BitVec 64) (size page : Nat) :
    Nat → BitVec 64 → (Nat → Byte) → (Nat → Byte) × Option String
  | 0, _, bytes => (bytes, some "dyld shared cache slide chain leaves its page")
  | fuel + 1, pageOffset, bytes =>
    if BitVec.ofNat 64 info.pageSize - 8 < pageOffset then
      (bytes, some "dyld shared cache slide chain leaves its page")
    else
      let location := page * info.pageSize + pageOffset.toNat
      match readU64 size bytes location with
      | .error message => (bytes, some message)
      | .ok raw =>
        match rebased info slide raw with
        | .error message => (bytes, some message)
        | .ok value =>
          let bytes := writeU64 bytes location value
          let delta := chainDelta info raw
          if delta = 0 then (bytes, none)
          else if BitVec.ofNat 64 info.pageSize - delta < pageOffset then
            (bytes, some "dyld shared cache slide delta leaves its page")
          else applyChain info slide size page fuel (pageOffset + delta) bytes

/-- Where a chain starts in its page. -/
def chainStart (start : BitVec 16) : BitVec 64 := (start &&& 0x3FFF).setWidth 64 * 4

/-- The loop over the extras of a page; the table of extras is shorter than the fuel. -/
def applyExtras (slideInfo : List Byte) (info : SlideInfo2) (slide : BitVec 64)
    (size page : Nat) : Nat → BitVec 32 → (Nat → Byte) → (Nat → Byte) × Option String
  | 0, _, bytes => (bytes, some "dyld shared cache slide field is truncated")
  | fuel + 1, extraIndex, bytes =>
    match readU16 slideInfo (info.pageExtrasOffset.toNat + extraIndex.toNat * 2) with
    | .error message => (bytes, some message)
    | .ok extra =>
      match applyChain info slide size page info.pageSize (chainStart extra) bytes with
      | (bytes, some message) => (bytes, some message)
      | (bytes, none) =>
        if extra &&& 0x8000 ≠ 0 then (bytes, none)
        else applyExtras slideInfo info slide size page fuel (extraIndex + 1) bytes

/-- `applySlideInfo2Page`. -/
def applySlideInfo2Page (slideInfo : List Byte) (info : SlideInfo2) (slide : BitVec 64) :
    PageTransform := fun size bytes page =>
  if info.pageStartsCount.toNat ≤ page then
    (bytes, some "dyld shared cache slide page lies outside its mapping")
  else
    match readU16 slideInfo (info.pageStartsOffset.toNat + page * 2) with
    | .error message => (bytes, some message)
    | .ok start =>
      let attributes := start &&& 0xC000
      if attributes = 0x4000 then (bytes, none)
      else if attributes = 0 then
        applyChain info slide size page info.pageSize (chainStart start) bytes
      else
        applyExtras slideInfo info slide size page (slideInfo.length + 1)
          ((start &&& 0x3FFF).setWidth 32) bytes

/-! ## The callback works on its page -/

/-- Two results of the callback on a page : they end the same way with the same bytes on
the page, and the first has changed no byte of `bytes` elsewhere. -/
structure SamePage (pageSize size page : Nat) (bytes : Nat → Byte)
    (x y : (Nat → Byte) × Option String) : Prop where
  result : x.2 = y.2
  inside : ∀ i < size, i / pageSize = page → x.1 i = y.1 i
  outside : ∀ i, i / pageSize ≠ page → x.1 i = bytes i

variable {info : SlideInfo2} {slide : BitVec 64} {size page : Nat} {bytes bytes' : Nat → Byte}

theorem SamePage.unchanged {pageSize : Nat} {e : Option String}
    (h : ∀ i < size, i / pageSize = page → bytes i = bytes' i) :
    SamePage pageSize size page bytes (bytes, e) (bytes', e) :=
  ⟨rfl, h, fun _ _ => rfl⟩

/-- A word that starts early enough in a page is on it. -/
theorem div_location {pageSize offset k : Nat} (h : offset + k < pageSize) :
    (page * pageSize + offset + k) / pageSize = page := by
  rw [Nat.add_assoc, Nat.mul_comm, Nat.mul_add_div (by omega), Nat.div_eq_of_lt h, Nat.add_zero]

theorem readU64_congr {offset : Nat}
    (h : ∀ k < 8, offset + k < size → bytes (offset + k) = bytes' (offset + k)) :
    readU64 size bytes offset = readU64 size bytes' offset := by
  unfold readU64
  split
  · rfl
  · next hin =>
    congr 2
    exact List.map_congr_left fun k hk => by
      have := List.mem_range.mp hk
      exact h k this (by omega)

theorem applyChain_samePage (info : SlideInfo2) (slide : BitVec 64) (size page : Nat) :
    ∀ (fuel : Nat) (pageOffset : BitVec 64) {bytes bytes' : Nat → Byte},
      (∀ i < size, i / info.pageSize = page → bytes i = bytes' i) →
      SamePage info.pageSize size page bytes (applyChain info slide size page fuel pageOffset bytes)
        (applyChain info slide size page fuel pageOffset bytes')
  | 0, _, _, _, h => .unchanged h
  | fuel + 1, pageOffset, bytes, bytes', h => by
    rw [applyChain, applyChain]
    dsimp only
    generalize hlocation : page * info.pageSize + pageOffset.toNat = location
    split
    · exact .unchanged h
    · next hin =>
      have hoffset : pageOffset.toNat + 8 ≤ info.pageSize := by
        rw [info.geometry] at hin ⊢
        simp only [guestPageSize, BitVec.lt_def, not_lt] at hin ⊢
        have : (BitVec.ofNat 64 4096 - 8).toNat = 4088 := by decide
        omega
      have hword (k : Nat) (hk : k < 8) : (location + k) / info.pageSize = page := by
        rw [← hlocation]
        exact div_location (by omega)
      rw [readU64_congr fun k hk hsize => h (location + k) hsize (hword k hk)]
      split
      · exact .unchanged h
      · split
        · exact .unchanged h
        · next value _ =>
          have hsame (i : Nat) (hi : i < size) (hp : i / info.pageSize = page) :
              writeU64 bytes location value i = writeU64 bytes' location value i := by
            simp only [writeU64, overwrite, h i hi hp]
          have hkeep (i : Nat) (hi : i / info.pageSize ≠ page) :
              writeU64 bytes location value i = bytes i := by
            refine AddressSpace.overwrite_of_not_mem fun k hk he => hi ?_
            rw [length_littleEndian] at hk
            rw [he, hword k hk]
          split
          · exact ⟨rfl, hsame, hkeep⟩
          · split
            · exact ⟨rfl, hsame, hkeep⟩
            · obtain ⟨hend, hinside, houtside⟩ := applyChain_samePage info slide size page fuel
                (pageOffset + chainDelta info _) hsame
              exact ⟨hend, hinside, fun i hi => (houtside i hi).trans (hkeep i hi)⟩

theorem applyExtras_samePage (slideInfo : List Byte) (info : SlideInfo2) (slide : BitVec 64)
    (size page : Nat) : ∀ (fuel : Nat) (extraIndex : BitVec 32) {bytes bytes' : Nat → Byte},
      (∀ i < size, i / info.pageSize = page → bytes i = bytes' i) →
      SamePage info.pageSize size page bytes
        (applyExtras slideInfo info slide size page fuel extraIndex bytes)
        (applyExtras slideInfo info slide size page fuel extraIndex bytes')
  | 0, _, _, _, h => .unchanged h
  | fuel + 1, extraIndex, bytes, bytes', h => by
    rw [applyExtras, applyExtras]
    split
    · exact .unchanged h
    · next extra _ =>
      obtain ⟨hend, hinside, houtside⟩ := applyChain_samePage info slide size page info.pageSize
        (chainStart extra) h
      generalize applyChain info slide size page info.pageSize (chainStart extra) bytes = x at *
      generalize applyChain info slide size page info.pageSize (chainStart extra) bytes' = y at *
      obtain ⟨b, e⟩ := x
      obtain ⟨b', e'⟩ := y
      obtain rfl : e = e' := hend
      cases e with
      | some message => exact ⟨rfl, hinside, houtside⟩
      | none =>
        dsimp only
        split
        · exact ⟨rfl, hinside, houtside⟩
        · obtain ⟨hend', hinside', houtside'⟩ := applyExtras_samePage slideInfo info slide size page
            fuel (extraIndex + 1) hinside
          exact ⟨hend', hinside', fun i hi => (houtside' i hi).trans (houtside i hi)⟩

theorem applySlideInfo2Page_samePage (slideInfo : List Byte) (info : SlideInfo2)
    (slide : BitVec 64) (size page : Nat)
    (h : ∀ i < size, i / info.pageSize = page → bytes i = bytes' i) :
    SamePage info.pageSize size page bytes
      (applySlideInfo2Page slideInfo info slide size bytes page)
      (applySlideInfo2Page slideInfo info slide size bytes' page) := by
  unfold applySlideInfo2Page
  split
  · exact .unchanged h
  · split
    · exact .unchanged h
    · dsimp only
      split
      · exact .unchanged h
      · split
        · exact applyChain_samePage info slide size page _ _ h
        · exact applyExtras_samePage slideInfo info slide size page _ _ h

/-- The callback reads and writes its page only. -/
theorem applySlideInfo2Page_worksByPage (slideInfo : List Byte) (info : SlideInfo2)
    (slide : BitVec 64) (size : Nat) (original : Nat → Byte) :
    WorksByPage (applySlideInfo2Page slideInfo info slide) info.pageSize size original := by
  intro bytes page h
  have hsame := applySlideInfo2Page_samePage slideInfo info slide size page h
  refine ⟨hsame.result, fun i hi => ?_⟩
  split
  · next hp => exact hsame.inside i hi hp
  · next hp => exact hsame.outside i hp

open AddressSpace Rosa.Computation

/-- A transform of the shared cache is seen once as long as no chain of a page breaks after
a pointer of it was rebased. -/
theorem slide_transformsOnce (run : TransformRun) (m : Mapping) (slideInfo : List Byte)
    (info : SlideInfo2) (slide : BitVec 64) (hm : run.InstalledOn m)
    (hfree : run.before.Untransformed m)
    (htransform : run.transform = applySlideInfo2Page slideInfo info slide)
    (hpages : run.pageSize.toNat = info.pageSize)
    (hclean : FailsCleanly (applySlideInfo2Page slideInfo info slide) info.pageSize m.size
      (run.before.contents m))
    (hspare : Along (fun s call => call.SparesReservations s) {}
      (run.setup ++ run.install :: run.uses)) : run.TransformsOnce m := by
  refine transformsOnce_of_failsCleanly run m hm hfree ?_ ?_ hspare
  · rw [htransform, hpages]
    exact applySlideInfo2Page_worksByPage _ _ _ _ _
  · rw [htransform, hpages]
    exact hclean

/-- Slide info for one page with a chain that starts at its first word. -/
def oneChain : List Byte :=
  littleEndian 4 (2 : BitVec 32) ++ littleEndian 4 (4096 : BitVec 32) ++
    littleEndian 4 (40 : BitVec 32) ++ littleEndian 4 (1 : BitVec 32) ++
    littleEndian 4 (42 : BitVec 32) ++ littleEndian 4 (0 : BitVec 32) ++
    littleEndian 8 (0x00FFFF0000000000 : BitVec 64) ++ littleEndian 8 (0 : BitVec 64) ++ [0, 0]

/-- A cache file of one page that starts with `word`, mapped and then used. -/
def slideRun (word : BitVec 64) (uses : List Call) : TransformRun where
  setup :=
    [.mapFileSegment 0x1000 0x1000 { read := true } { read := true }
      { path := "cache", size := 0x1000, contents := fun i => (littleEndian 8 word).getD i 0 } 0
      "dyld-cache:mapping-0"]
  base := 0x1000
  pageSize := 0x1000
  transform := applySlideInfo2Page oneChain
    { pageSize := 4096, pageStartsOffset := 40, pageStartsCount := 1, pageExtrasOffset := 42
      deltaMask := 0x00FFFF0000000000, valueAdd := 0
      geometry := rfl, spaced := by decide } 0x10000
  uses := uses

/-- The mapping of the page. -/
def slideMapping : Mapping where
  base := 0x1000
  size := 0x1000
  permissions := { read := true }
  maximumPermissions := { read := true }
  fileBytes := some 0
  label := "dyld-cache:mapping-0"

theorem slideRun_before (word : BitVec 64) (uses : List Call) : (slideRun word uses).before =
    { mappings := [slideMapping]
      files := Function.update (fun _ => ⟨0, fun _ => 0⟩) 0
        ⟨0x1000, fun i => if i < 0x1000 then (littleEndian 8 word).getD i 0 else 0⟩
      fileCount := 1 } := by
  simp [TransformRun.before, slideRun, afterAll, after, Call.run, mapFileSegment,
    validateNewMapping]
  rfl

theorem slideRun_installedOn (word : BitVec 64) {uses : List Call}
    (h : ∀ call ∈ uses, call.isUse = true) : (slideRun word uses).InstalledOn slideMapping := by
  refine ⟨⟨?_, rfl, rfl⟩, ?_, h⟩
  · rw [slideRun_before]
    exact List.mem_singleton.mpr rfl
  · rw [slideRun_before]
    simp [TransformRun.install, slideRun, Call.run, installLazyFilePageTransform]
    rfl

/-- A page that is read twice, with one pointer that has no successor. -/
theorem transformsOnce_rebasedPointer :
    (slideRun 0x2000 [.readWord 0x1000 8]).TransformsOnce slideMapping := by
  refine transformsOnce_of_failsCleanly _ _ (slideRun_installedOn _ (by simp [Call.isUse])) ?_
    (applySlideInfo2Page_worksByPage _ _ _ _ _) ?_ ⟨trivial, trivial, trivial, trivial⟩
  · intro a ha hne
    rw [slideRun_before] at ha
    exact absurd (List.mem_singleton.mp ha) hne
  · intro page h i hi hp
    obtain rfl : 0 = page := by rw [← hp]; exact (Nat.div_eq_of_lt hi).symm
    exact absurd h (by decide +kernel)

/-- The chain leaves the page after its first pointer was rebased : the first read throws,
and the second returns the pointer rebased twice. -/
theorem not_transformsOnce_brokenChain :
    (readWord 0x1000 8 (slideRun 0x3FF0000002000 []).final).1 =
        .error (.thrown "dyld shared cache slide chain leaves its page") ∧
      (readWord 0x1000 8 (slideRun 0x3FF0000002000 [.readWord 0x1000 8]).final).1 =
        .ok (littleEndian 8 (0x22000 : BitVec 64)) ∧
      (slideRun 0x3FF0000002000 [.readWord 0x1000 8]).InstalledOn slideMapping ∧
      ¬(slideRun 0x3FF0000002000 [.readWord 0x1000 8]).TransformsOnce slideMapping := by
  have hread : (readWord 0x1000 8 (slideRun 0x3FF0000002000 [.readWord 0x1000 8]).final).1 =
      .ok (littleEndian 8 (0x22000 : BitVec 64)) := by decide +kernel
  refine ⟨by decide +kernel, hread, slideRun_installedOn _ (by simp [Call.isUse]), fun h => ?_⟩
  have := (h 0x1000 _ (.readWord hread) 0 (by decide) (by decide) (by decide)).2
  exact absurd this (by decide +kernel)

/-- The page of the broken chain as the shared cache maps it for data. -/
def brokenData : List Call :=
  [.mapFileSegment 0x1000 0x1000 { read := true, write := true } { read := true, write := true }
      { path := "cache", size := 0x1000,
        contents := fun i => (littleEndian 8 (0x3FF0000002000 : BitVec 64)).getD i 0 } 0
      "dyld-cache:mapping-1",
    .installLazyFilePageTransform 0x1000 0x1000
      (applySlideInfo2Page oneChain
        { pageSize := 4096, pageStartsOffset := 40, pageStartsCount := 1, pageExtrasOffset := 42
          deltaMask := 0x00FFFF0000000000, valueAdd := 0
          geometry := rfl, spaced := by decide } 0x10000)]

/-- A write to a page whose chain breaks throws, and has rebased the first pointer. -/
theorem not_allOrNothing_brokenData :
    (writeBytes 0x1100 [0] (afterAll {} brokenData)).1 =
        .error (.thrown "dyld shared cache slide chain leaves its page") ∧
      ¬Post (writeBytes 0x1100 [0]) (afterAll {} brokenData)
        (fun _ s' => Written (afterAll {} brokenData) 0x1100 [0] s')
        fun _ s' => NotWritten (afterAll {} brokenData) s' := by
  have hthrows : (writeBytes 0x1100 [0] (afterAll {} brokenData)).1 =
      .error (.thrown "dyld shared cache slide chain leaves its page") := by decide +kernel
  refine ⟨hthrows, fun h => ?_⟩
  have hrun : writeBytes 0x1100 [0] (afterAll {} brokenData) =
      (.error (.thrown "dyld shared cache slide chain leaves its page"),
        (writeBytes 0x1100 [0] (afterAll {} brokenData)).2) := Prod.ext hthrows rfl
  have hkept := Post.of_error h hrun
  have hbyte : ∃ m ∈ (afterAll {} brokenData).mappings, 2 < m.size ∧
      (writeBytes 0x1100 [0] (afterAll {} brokenData)).2.settled.shownByte m 2 ≠
        (afterAll {} brokenData).settled.shownByte m 2 := by
    decide +kernel
  obtain ⟨m, hm, hsize, hne⟩ := hbyte
  exact hne (hkept.memory.bytes m hm 2 hsize).2

end Darwin

end Rosa
