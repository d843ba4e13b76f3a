import Rosa.Guest.Words
import Rosa.Darwin.ChainSlots

/-!
# Linking a page

`applyMapWithLinkingPageFixups` of `darwin/SyscallMemory.cpp` : find the segment of a page in the
table of chained starts, and replace the pointers of the chain that starts in the page. A chain is
followed in the memory that is rewritten. Whatever the blob and the page hold, the walk ends and
stays in the page (`followChain_contained`). If the slots do not overlap, every pointer is replaced
by what it was linked to, unless the chain leaves the page or a pointer names a symbol that the
table of binds does not have (`followChain_links`).
-/

namespace Rosa.Darwin

open Rosa.Computation Rosa.AddressSpace

/-! ## The blob -/

/-- The number in `size` bytes of the blob. -/
def blobField (blob : List Byte) (offset size : Nat) : Nat :=
  (ofLittleEndian 64 size (blob.drop offset)).toNat

/-- `readMapWithLinkingField`. -/
def readMapWithLinkingField (blob : List Byte) (offset size : Nat) : Except String Nat :=
  if blob.length < offset ∨ blob.length - offset < size then
    .error "map_with_linking field exceeds its extent"
  else .ok (blobField blob offset size)

theorem readMapWithLinkingField_ok {blob : List Byte} {offset size : Nat}
    (h : offset + size ≤ blob.length) :
    readMapWithLinkingField blob offset size = .ok (blobField blob offset size) :=
  if_neg (by omega)

/-- What is read of the blob before the search. -/
structure LinkHeader where
  pointerFormat : Nat
  bindsOffset : Nat
  bindsCount : Nat
  chainsOffset : Nat
  slide : BitVec 64
  imageAddress : BitVec 64
  segCount : Nat

def readHeader (blob : List Byte) : Except String LinkHeader := do
  let pointerFormat ← readMapWithLinkingField blob 6 2
  let bindsOffset ← readMapWithLinkingField blob 8 4
  let bindsCount ← readMapWithLinkingField blob 12 4
  let chainsOffset ← readMapWithLinkingField blob 16 4
  let slide ← readMapWithLinkingField blob 24 8
  let imageAddress ← readMapWithLinkingField blob 32 8
  let segCount ← readMapWithLinkingField blob chainsOffset 4
  pure { pointerFormat, bindsOffset, bindsCount, chainsOffset, segCount
         slide := BitVec.ofNat 64 slide, imageAddress := BitVec.ofNat 64 imageAddress }

/-- One turn of the search, with the segment at `segOffset` : the start of the page's chain, if the
segment covers the page. -/
def segmentStart (blob : List Byte) (imageAddress page : BitVec 64) (segOffset : Nat) :
    Except String (Option Nat) :=
  if blob.length < segOffset then .error "map_with_linking chained segment escapes its blob"
  else do
    let segSize ← readMapWithLinkingField blob segOffset 4
    let segmentOffset ← readMapWithLinkingField blob (segOffset + 8) 8
    let pageCount ← readMapWithLinkingField blob (segOffset + 20) 2
    if segSize < 24 ∨ blob.length < segOffset + segSize ∨ blob.length < segOffset + 22 ∨
        blob.length - (segOffset + 22) < pageCount * 2 then
      .error "map_with_linking chained segment exceeds its blob"
    else
      let segStart := imageAddress + BitVec.ofNat 64 segmentOffset
      let segEnd := segStart + BitVec.ofNat 64 (pageCount * guestPageSize)
      if page < segStart ∨ segEnd ≤ page then pure none
      else do
        let pageIndex := (page - segStart).toNat / guestPageSize
        let firstStart ← readMapWithLinkingField blob (segOffset + 22 + pageIndex * 2) 2
        pure (some firstStart)

/-- The search over the remaining entries of the table. The offset of an entry is a 32-bit sum. -/
def findStart (blob : List Byte) (header : LinkHeader) (page : BitVec 64) :
    Nat → Nat → Except String Nat
  | 0, _ => .error "no map_with_linking chained segment covers the page"
  | remaining + 1, segIndex => do
    let segInfoOffset ←
      readMapWithLinkingField blob ((header.chainsOffset + 4 + segIndex * 4) % 2 ^ 32) 4
    match ← segmentStart blob header.imageAddress page (header.chainsOffset + segInfoOffset) with
    | some firstStart => pure firstStart
    | none => findStart blob header page remaining (segIndex + 1)

/-! ## Pointers -/

/-- The bit of a pointer that is bound. -/
def bindBit : BitVec 64 := 0x8000000000000000

/-- The distance to the next pointer. -/
def pointerDelta (value : BitVec 64) : BitVec 64 := (value >>> 51 &&& 0xFFF) * 4

/-- What a pointer is replaced by. -/
def linkedPointer (blob : List Byte) (header : LinkHeader) (value : BitVec 64) :
    Except String (BitVec 64) :=
  if value &&& bindBit ≠ 0 then
    let ordinal := (value &&& 0xFFFFFF).toNat
    if header.bindsCount ≤ ordinal then
      .error "map_with_linking bind ordinal exceeds its table"
    else do
      let target ← readMapWithLinkingField blob (header.bindsOffset + ordinal * 8) 8
      pure (BitVec.ofNat 64 target + (value >>> 24 &&& 0xFF))
  else
    let adjust := if header.pointerFormat = 6 then header.imageAddress else header.slide
    .ok ((value &&& 0xFFFFFFFFF) + adjust + ((value >>> 36 &&& 0xFF) <<< 56))

/-! ## The walk -/

/-- The exceptions of the walk; `running` if it has not ended. -/
inductive FixupError
  | outOfRange (message : String)
  | access (error : AccessError)
  | running

abbrev Fixup (α : Type) := Computation AddressSpace FixupError α

/-- A part that reads the blob only. -/
def ofBlob {α : Type} : Except String α → Fixup α
  | .ok a => pure a
  | .error message => raise (.outOfRange message)

/-- An access to guest memory. -/
def accessing {α : Type} (x : Access α) : Fixup α := fun s =>
  match x s with
  | (.ok a, s) => (.ok a, s)
  | (.error e, s) => (.error (.access e), s)

theorem post_accessing {α : Type} {x : Access α} {s : AddressSpace}
    {Q : α → AddressSpace → Prop} {F : FixupError → AddressSpace → Prop}
    (h : Post x s Q fun e s' => F (.access e) s') : Post (accessing x) s Q F := by
  unfold Post at h ⊢
  unfold accessing
  rcases hrun : x s with ⟨e | a, s'⟩
  · rw [hrun] at h
    exact h
  · rw [hrun] at h
    exact h

/-- The loop over the chain of a page. -/
def followChain (blob : List Byte) (header : LinkHeader) (page : BitVec 64) :
    Nat → BitVec 64 → Fixup Unit
  | 0, _ => raise .running
  | fuel + 1, location => do
    raiseIf (decide (location < page ∨ page + 4096 < location + 8))
      (.outOfRange "map_with_linking chain leaves its page")
    let bytes ← accessing (readWord location.toNat 8)
    let value := ofLittleEndian 64 8 bytes
    let linked ← ofBlob (linkedPointer blob header value)
    accessing (writeWord location.toNat 8 linked)
    let delta := pointerDelta value
    if delta = 0 then pure ()
    else do
      raiseIf (decide (4096 < delta ∨ location + delta < page ∨
          page + 4096 < location + delta + 8))
        (.outOfRange "map_with_linking chain delta leaves its page")
      followChain blob header page fuel (location + delta)

/-- `applyMapWithLinkingPageFixups`. Pointers are four bytes apart at least, so the chain of a page
has ended after as many turns as the page has bytes. -/
def applyMapWithLinkingPageFixups (blob : List Byte) (page : BitVec 64) : Fixup Unit := do
  let header ← ofBlob (readHeader blob)
  let firstStart ← ofBlob (findStart blob header page header.segCount 0)
  if firstStart = 0xFFFF then pure ()
  else followChain blob header page 4096 (page + BitVec.ofNat 64 firstStart)

/-! ## Words of the page -/

variable {blob : List Byte} {header : LinkHeader} {page location : BitVec 64}
  {s s' : AddressSpace} {memory : Nat → Byte}

theorem readWord_calmly {address size : Nat} (hs : Shown memory s)
    (hno : NoneFails s address size) :
    Post (readWord address size) s
      (fun bytes s' => bytes = bytesAt memory address size ∧
        (∀ k < size, s.ReadableAt (address + k)) ∧ Calm s s')
      fun _ s' => Depicts memory s'.settled := by
  have hcalm : Post (readWord address size) s (fun _ s' => Calm s s') fun _ s' => Calm s s' :=
    Post.of_final (readWord_calm hs.regular hno)
  refine Post.mono (Post.and (Post.and (readWord_shown hs hno) (readWord_readable hs.regular))
    hcalm) ?_ ?_
  · rintro bytes s' ⟨⟨⟨hbytes, -⟩, hreadable⟩, hcalm⟩
    exact ⟨hbytes, hreadable, hcalm⟩
  · rintro e s' ⟨⟨hsame, -⟩, -⟩
    exact hsame.depicts hs.depicts

theorem writeWord_put {address : Nat} {value : BitVec 64} (hs : Shown memory s)
    (hno : NoneFails s address 8) :
    Post (writeWord address 8 value) s
      (fun _ s' => Shown (putWord memory address value) s' ∧
        ∀ a n, NoneFails s a n → NoneFails s' a n)
      fun _ s' => Depicts memory s'.settled := by
  have hno' : NoneFails s address (wordBytes 8 value).length := by
    rwa [wordBytes, length_littleEndian]
  exact Post.mono (writeBytes_shown hs hno') (fun _ _ h => ⟨h.1, h.2.2⟩)
    fun _ _ h => h.depicts hs.depicts

/-- Nothing is mapped at the end of the address space, where sums of addresses wrap. -/
theorem mapped_below (hi : Inv s) {m : Mapping} (hm : m ∈ s.mappings) :
    m.base + m.size ≤ 2 ^ 64 - 4096 := by
  have hp := hi.placed m hm
  have hbase : m.base % 4096 = 0 := hp.baseAligned
  have hsize : m.size % 4096 = 0 := hp.sizeAligned
  have := hp.below
  omega

/-- The location passes the test that it is in the page. -/
def PassesTest (page location : BitVec 64) : Prop :=
  ¬(location < page ∨ page + 4096 < location + 8)

theorem PassesTest.le (h : PassesTest page location) : page.toNat ≤ location.toNat := by
  have := (not_or.mp h).1
  rw [BitVec.lt_def] at this
  omega

theorem PassesTest.inside (h : PassesTest page location)
    (hbelow : location.toNat + 8 ≤ 2 ^ 64 - 4096) :
    location.toNat + 8 ≤ page.toNat + 4096 := by
  have hle := h.le
  have htop := (not_or.mp h).2
  rw [BitVec.lt_def, BitVec.toNat_add, BitVec.toNat_add] at htop
  have h1 : (4096 : BitVec 64).toNat = 4096 := rfl
  have h2 : (8 : BitVec 64).toNat = 8 := rfl
  rw [h1, h2] at htop
  omega

theorem readable_below (hi : Inv s)
    (hreadable : ∀ k < 8, s.ReadableAt (location.toNat + k)) :
    location.toNat + 8 ≤ 2 ^ 64 - 4096 := by
  obtain ⟨i, m, hf, -⟩ := hreadable 7 (by decide)
  have hlimit := hf.limit
  have := mapped_below hi hf.mem
  omega

theorem PassesTest.noneFails (h : PassesTest page location) (hi : Inv s)
    (hno : NoneFails s page.toNat 4096) : NoneFails s location.toNat 8 := by
  intro m hm o ho h1 h2
  have hend := mapped_below hi hm
  have hle := h.le
  refine hno m hm o ho (by omega) ?_
  have htop := (not_or.mp h).2
  rw [BitVec.lt_def, BitVec.toNat_add, BitVec.toNat_add] at htop
  have h3 : (4096 : BitVec 64).toNat = 4096 := rfl
  have h4 : (8 : BitVec 64).toNat = 8 := rfl
  rw [h3, h4] at htop
  omega

/-! ## The walk stays in its page -/

/-- The bytes outside the page are the ones of the picture. -/
def OutsideKept (page : BitVec 64) (memory : Nat → Byte) (s' : AddressSpace) : Prop :=
  ∃ memory', Depicts memory' s'.settled ∧
    ∀ i, i < page.toNat ∨ page.toNat + 4096 ≤ i → memory' i = memory i

/-- The turns that are left are enough. -/
def Budget (page : BitVec 64) (fuel : Nat) (location : BitVec 64) : Prop :=
  1 ≤ fuel ∧ (page.toNat ≤ location.toNat → location.toNat + 8 ≤ page.toNat + 4096 →
    page.toNat + 4096 ≤ location.toNat + 4 * fuel)

theorem pointerDelta_toNat (value : BitVec 64) :
    ∃ k < 4096, (pointerDelta value).toNat = 4 * k := by
  refine ⟨(value >>> 51 &&& 0xFFF).toNat, ?_, ?_⟩
  · have hmask : (0xFFF : BitVec 64).toNat = 2 ^ 12 - 1 := rfl
    rw [BitVec.toNat_and, hmask, Nat.and_two_pow_sub_one_eq_mod]
    omega
  · have hmask : (0xFFF : BitVec 64).toNat = 2 ^ 12 - 1 := rfl
    have h4 : (4 : BitVec 64).toNat = 4 := rfl
    rw [pointerDelta, BitVec.toNat_mul, h4, BitVec.toNat_and, hmask,
      Nat.and_two_pow_sub_one_eq_mod]
    omega

/-- A turn that goes on has its budget. -/
theorem Budget.next {fuel : Nat} {delta : BitVec 64} (h : Budget page (fuel + 1) location)
    (hle : page.toNat ≤ location.toNat) (hin : location.toNat + 8 ≤ page.toNat + 4096)
    (hdelta : delta ≠ 0) (hfour : ∃ k < 4096, delta.toNat = 4 * k) (hback : ¬location + delta < page) :
    Budget page fuel (location + delta) := by
  obtain ⟨k, hk, hfour⟩ := hfour
  have hpos : 4 ≤ delta.toNat := by
    have : delta.toNat ≠ 0 := fun h0 => hdelta (BitVec.eq_of_toNat_eq h0)
    omega
  have hmeasure := h.2 hle hin
  refine ⟨by omega, fun _ hin' => ?_⟩
  rw [BitVec.lt_def, BitVec.toNat_add] at hback
  rw [BitVec.toNat_add] at hin' ⊢
  omega

/-- Whatever the blob and the page hold, the walk ends and changes the page only. -/
theorem followChain_contained : ∀ {fuel : Nat} {location : BitVec 64} {s : AddressSpace}
    {memory : Nat → Byte}, Shown memory s → NoneFails s page.toNat 4096 →
    Budget page fuel location →
    Post (followChain blob header page fuel location) s (fun _ s' => OutsideKept page memory s')
      fun e s' => e ≠ .running ∧ OutsideKept page memory s'
  | 0, _, _, _, _, _, hbudget => absurd hbudget.1 (by omega)
  | fuel + 1, location, s, memory, hs, hno, hbudget => by
    have hsame : ∀ {s' : AddressSpace}, Depicts memory s'.settled → OutsideKept page memory s' :=
      fun hd => ⟨memory, hd, fun _ _ => rfl⟩
    rw [followChain]
    refine Post.bind (Post.raiseIf (fun _ => ⟨nofun, hsame hs.depicts⟩) fun htest => ?_)
    have hpasses : PassesTest page location := of_decide_eq_false htest
    have hslot := hpasses.noneFails hs.regular.inv hno
    refine Post.bind (post_accessing (Post.mono (readWord_calmly hs hslot) ?_
      fun _ _ hd => ⟨nofun, hsame hd⟩))
    rintro bytes s1 ⟨rfl, hreadable, hcalm⟩
    have hin := hpasses.inside (readable_below hs.regular.inv hreadable)
    have hs1 := hcalm.shown hs
    have hno1 := hcalm.noneFails hs.regular hno
    dsimp only
    generalize ofLittleEndian 64 8 (bytesAt memory location.toNat 8) = value
    refine Post.bind ?_
    cases linkedPointer blob header value with
    | error message => exact Post.raise ⟨nofun, hsame hs1.depicts⟩
    | ok linked =>
      refine Post.pure (Post.bind (post_accessing (Post.mono (writeWord_put hs1
        (hpasses.noneFails hs1.regular.inv hno1)) ?_ fun _ _ hd => ⟨nofun, hsame hd⟩)))
      rintro _ s2 ⟨hs2, hpages⟩
      -- the word that was written is in the page
      have hkept : ∀ i, i < page.toNat ∨ page.toNat + 4096 ≤ i →
          putWord memory location.toNat linked i = memory i := by
        intro i hi
        have := hpasses.le
        exact putWord_outside (by omega)
      split
      · exact Post.pure ⟨_, hs2.depicts, hkept⟩
      · next hdelta =>
        refine Post.bind (Post.raiseIf (fun _ => ⟨nofun, _, hs2.depicts, hkept⟩) fun htest' => ?_)
        have hback := (not_or.mp (not_or.mp (of_decide_eq_false htest')).2).1
        have hnext := hbudget.next hpasses.le hin hdelta (pointerDelta_toNat value) hback
        have hwiden : ∀ {s' : AddressSpace}, OutsideKept page (putWord memory location.toNat linked) s' →
            OutsideKept page memory s' := by
          rintro s' ⟨memory', hd, hout⟩
          exact ⟨memory', hd, fun i hi => (hout i hi).trans (hkept i hi)⟩
        exact Post.mono (followChain_contained hs2 (hpages _ _ hno1) hnext) (fun _ _ h => hwiden h)
          fun _ _ h => ⟨h.1, hwiden h.2⟩

/-! ## What the walk writes -/

/-- The slots of a chain, as far as they end at the limit, and whether the chain ends there. -/
def slotsFrom (memory : Nat → Byte) (limit : Nat) : Nat → Nat → List Nat × Bool
  | 0, _ => ([], false)
  | fuel + 1, location =>
    if limit < location + 8 then ([], false)
    else if pointerDelta (slotWord memory location) = 0 then ([location], true)
    else
      let rest := slotsFrom memory limit fuel
        (location + (pointerDelta (slotWord memory location)).toNat)
      (location :: rest.1, rest.2)

/-- What a pointer is linked to. -/
def LinksTo (blob : List Byte) (header : LinkHeader) (value linked : BitVec 64) : Prop :=
  if value &&& bindBit ≠ 0 then
    (value &&& 0xFFFFFF).toNat < header.bindsCount ∧
      header.bindsOffset + (value &&& 0xFFFFFF).toNat * 8 + 8 ≤ blob.length ∧
      linked = BitVec.ofNat 64
        (blobField blob (header.bindsOffset + (value &&& 0xFFFFFF).toNat * 8) 8) +
          (value >>> 24 &&& 0xFF)
  else
    linked = (value &&& 0xFFFFFFFFF) +
      (if header.pointerFormat = 6 then header.imageAddress else header.slide) +
        ((value >>> 36 &&& 0xFF) <<< 56)

theorem linkedPointer_ok_iff {value linked : BitVec 64} :
    linkedPointer blob header value = .ok linked ↔ LinksTo blob header value linked := by
  unfold linkedPointer LinksTo
  split
  · by_cases hcount : header.bindsCount ≤ (value &&& 0xFFFFFF).toNat
    · simp only [if_pos hcount]
      exact ⟨nofun, fun h => absurd h.1 (by omega)⟩
    · simp only [if_neg hcount]
      by_cases hfits : header.bindsOffset + (value &&& 0xFFFFFF).toNat * 8 + 8 ≤ blob.length
      · rw [readMapWithLinkingField_ok hfits]
        exact ⟨fun h => ⟨by omega, hfits, (Except.ok.inj h).symm⟩, fun h => congrArg _ h.2.2.symm⟩
      · rw [readMapWithLinkingField, if_pos (by omega)]
        exact ⟨nofun, fun h => absurd h.2.1 hfits⟩
  · exact ⟨fun h => (Except.ok.inj h).symm, fun h => congrArg _ h.symm⟩

/-- The chain ends in the page and all its pointers can be linked. -/
def Linkable (blob : List Byte) (header : LinkHeader) (memory : Nat → Byte)
    (slots : List Nat × Bool) : Prop :=
  slots.2 = true ∧ ∀ slot ∈ slots.1, ∃ linked, LinksTo blob header (slotWord memory slot) linked

/-- Every byte of the page may be read and written. -/
def PageAccessible (page : BitVec 64) (s : AddressSpace) : Prop :=
  ∀ k < 4096, s.ReadableAt (page.toNat + k) ∧ s.MayWrite (page.toNat + k)

theorem mem_slotsFrom {limit fuel location : Nat} (hin : location + 8 ≤ limit) (hfuel : 1 ≤ fuel) :
    location ∈ (slotsFrom memory limit fuel location).1 := by
  obtain ⟨fuel, rfl⟩ := Nat.exists_eq_add_of_le' hfuel
  rw [slotsFrom, if_neg (by omega)]
  split
  · exact List.mem_cons_self
  · exact List.mem_cons_self

theorem slotsFrom_outside {limit fuel location : Nat} (hout : limit < location + 8) :
    slotsFrom memory limit fuel location = ([], false) := by
  cases fuel with
  | zero => rfl
  | succ fuel => rw [slotsFrom, if_pos hout]

theorem passesTest_of_inside (hle : page.toNat ≤ location.toNat)
    (hin : location.toNat + 8 ≤ page.toNat + 4096) (hpage : page.toNat + 4096 ≤ 2 ^ 64 - 4096) :
    PassesTest page location := by
  rintro (h | h)
  · rw [BitVec.lt_def] at h
    omega
  · rw [BitVec.lt_def, BitVec.toNat_add, BitVec.toNat_add] at h
    have h1 : (4096 : BitVec 64).toNat = 4096 := rfl
    have h2 : (8 : BitVec 64).toNat = 8 := rfl
    rw [h1, h2] at h
    omega

/-- Where nothing is mapped the walk throws. -/
theorem followChain_unmapped {fuel : Nat} (hs : Shown memory s)
    (hno : NoneFails s page.toNat 4096) (habove : 2 ^ 64 - 4096 < location.toNat + 8) :
    Post (followChain blob header page fuel location) s (fun _ _ => False) fun _ _ => True := by
  cases fuel with
  | zero => exact Post.raise trivial
  | succ fuel =>
    rw [followChain]
    refine Post.bind (Post.raiseIf (fun _ => trivial) fun htest => ?_)
    have hpasses : PassesTest page location := of_decide_eq_false htest
    refine Post.bind (post_accessing (Post.mono (readWord_calmly hs
      (hpasses.noneFails hs.regular.inv hno)) ?_ fun _ _ _ => trivial))
    rintro bytes s1 ⟨-, hreadable, -⟩
    have := readable_below hs.regular.inv hreadable
    omega

/-! Accesses leave permissions as they are. -/

theorem readableAt_touch {allowed : Mapping → Prop} {address : Nat} (h : Touch allowed s s')
    (hread : s.ReadableAt address) : s'.ReadableAt address := by
  cases h with
  | lookup => exact hread.of_mappings rfl
  | transform => exact hread.of_mappings rfl
  | @store i offset m data hm ha hfits hready =>
    cases hfile : m.fileBytes with
    | some file => exact hread.of_mappings (by simp [storeBytes, hfile])
    | none =>
      have hmappings : (storeBytes i m offset data s).mappings = s.mappings.set i
          { m with bytes := ⟨m.bytes.size, overwrite m.bytes.get offset data⟩ } := by
        simp [storeBytes, hfile]
      obtain ⟨j, m', hf, hr⟩ := hread
      by_cases hij : i = j
      · subst hij
        obtain rfl : m = m' := Option.some.inj (hm.symm.trans hf.index)
        refine ⟨i, { m with bytes := ⟨m.bytes.size, overwrite m.bytes.get offset data⟩ },
          ⟨?_, hf.base, hf.limit, hf.permitted⟩, hr⟩
        rw [hmappings, List.getElem?_set_self (List.getElem?_eq_some_iff.mp hm).1]
      · refine ⟨j, m', ⟨?_, hf.base, hf.limit, hf.permitted⟩, hr⟩
        rw [hmappings, List.getElem?_set_ne hij]
        exact hf.index

theorem readableAt_touches {allowed : Mapping → Prop} {address : Nat} (h : Touches allowed s s')
    (hread : s.ReadableAt address) : s'.ReadableAt address := by
  induction h with
  | refl => exact hread
  | tail _ ht ih => exact readableAt_touch ht ih

theorem PageAccessible.of_mappings (h : PageAccessible page s) (hs : s'.mappings = s.mappings) :
    PageAccessible page s' := by
  intro k hk
  obtain ⟨hread, i, m, hf⟩ := h k hk
  exact ⟨hread.of_mappings hs, i, m, hf.of_mappings hs⟩

theorem PageAccessible.word (h : PageAccessible page s) {location : Nat}
    (hle : page.toNat ≤ location) (hin : location + 8 ≤ page.toNat + 4096) :
    ∀ k < 8, s.ReadableAt (location + k) ∧ s.MayWrite (location + k) := by
  intro k hk
  have := h (location - page.toNat + k) (by omega)
  rwa [show page.toNat + (location - page.toNat + k) = location + k by omega] at this

/-- A word that may be written is written, and the page stays accessible. -/
theorem writeWord_accessible {address : Nat} {value : BitVec 64} (hs : Shown memory s)
    (hno : NoneFails s address 8) (hwrite : ∀ k < 8, s.MayWrite (address + k))
    (hpage : PageAccessible page s) :
    Post (writeWord address 8 value) s
      (fun _ s' => Shown (putWord memory address value) s' ∧
        (∀ a n, NoneFails s a n → NoneFails s' a n) ∧ PageAccessible page s')
      fun _ _ => False := by
  have hlength : (wordBytes 8 value).length = 8 := length_littleEndian ..
  obtain ⟨s', hrun⟩ := (writeWord_returns_iff hs.regular value hno).mpr hwrite
  have hshown := Post.of_ok (writeWord_put hs hno) hrun
  obtain ⟨-, -, hfound⟩ := writeBytes_ok hs.regular (by rwa [hlength]) hrun
  obtain ⟨flag, s1, htouches, rfl⟩ := Post.of_ok (writeBytes_spec hs.regular.inv _ _) hrun
  unfold Post
  rw [hrun]
  refine ⟨hshown.1, hshown.2, fun k hk => ⟨?_, hfound _ _ (hpage k hk).2⟩⟩
  exact (readableAt_touches htouches (hpage k hk).1).of_mappings rfl

/-- A distance that fails the test leads out of the page. -/
theorem outside_of_test {delta : BitVec 64} (hpage : page.toNat + 4096 ≤ 2 ^ 64 - 4096)
    (hle : page.toNat ≤ location.toNat) (hin : location.toNat + 8 ≤ page.toNat + 4096)
    (htest : 4096 < delta ∨ location + delta < page ∨ page + 4096 < location + delta + 8) :
    page.toNat + 4096 < location.toNat + delta.toNat + 8 := by
  have h1 : (4096 : BitVec 64).toNat = 4096 := rfl
  have h2 : (8 : BitVec 64).toNat = 8 := rfl
  simp only [BitVec.lt_def, BitVec.toNat_add, h1, h2] at htest
  omega

/-- A distance that passes the test leads to a slot of the page, or to the last word of the address
space. -/
theorem inside_of_test {delta : BitVec 64} (hpage : page.toNat + 4096 ≤ 2 ^ 64 - 4096)
    (hle : page.toNat ≤ location.toNat) (hin : location.toNat + 8 ≤ page.toNat + 4096)
    (htest : ¬4096 < delta ∧ ¬(location + delta < page ∨ page + 4096 < location + delta + 8)) :
    ((location + delta).toNat = location.toNat + delta.toNat ∧
      (location + delta).toNat + 8 ≤ page.toNat + 4096) ∨
    (page.toNat + 4096 < location.toNat + delta.toNat + 8 ∧
      2 ^ 64 - 4096 < (location + delta).toNat + 8) := by
  have h1 : (4096 : BitVec 64).toNat = 4096 := rfl
  have h2 : (8 : BitVec 64).toNat = 8 := rfl
  simp only [not_or, BitVec.lt_def, BitVec.toNat_add, h1, h2] at htest ⊢
  omega

/-- The walk replaces every pointer of its chain, if they do not overlap, or throws. -/
theorem followChain_links {original : Nat → Byte} (hpage : page.toNat + 4096 ≤ 2 ^ 64 - 4096) :
    ∀ {fuel : Nat} {location : BitVec 64} {s : AddressSpace} {memory : Nat → Byte},
    Shown memory s → NoneFails s page.toNat 4096 → PageAccessible page s →
    Budget page fuel location → page.toNat ≤ location.toNat →
    location.toNat + 8 ≤ page.toNat + 4096 →
    (∀ i, location.toNat ≤ i → memory i = original i) →
    Apart (slotsFrom original (page.toNat + 4096) fuel location.toNat).1 →
    Post (followChain blob header page fuel location) s
      (fun _ s' => Linkable blob header original
          (slotsFrom original (page.toNat + 4096) fuel location.toNat) ∧
        ∃ memory', Depicts memory' s'.settled ∧
          Rewrites (LinksTo blob header)
            (slotsFrom original (page.toNat + 4096) fuel location.toNat).1 memory memory')
      fun _ _ => ¬Linkable blob header original
        (slotsFrom original (page.toNat + 4096) fuel location.toNat)
  | 0, _, _, _, _, _, _, hbudget, _, _, _, _ => absurd hbudget.1 (by omega)
  | fuel + 1, location, s, memory, hs, hno, hacc, hbudget, hle, hin, hagree, hapart => by
    have hpasses := passesTest_of_inside hle hin hpage
    have hslot := hpasses.noneFails hs.regular.inv hno
    have hword : slotWord memory location.toNat = slotWord original location.toNat :=
      slotWord_congr fun k _ => hagree _ (by omega)
    rw [slotsFrom, if_neg (by omega)] at hapart ⊢
    rw [followChain]
    refine Post.bind (Post.raiseIf (fun htest => absurd (of_decide_eq_true htest) hpasses)
      fun _ => ?_)
    have hread := Post.and (readWord_calmly hs hslot)
      (readWord_returns hs.regular hslot (by decide) (fun k hk => (hacc.word hle hin k hk).1)
        fun k hk => hs.regular.backedAt (hacc.word hle hin k hk).1)
    refine Post.bind (post_accessing (Post.mono hread ?_ fun _ _ h => h.2.elim))
    rintro bytes s1 ⟨⟨rfl, -, hcalm⟩, -⟩
    have hs1 := hcalm.shown hs
    have hno1 := hcalm.noneFails hs.regular hno
    have hacc1 := hacc.of_mappings hcalm.touches.mappings_eq
    have hvalue : ofLittleEndian 64 8 (bytesAt memory location.toNat 8) =
        slotWord original location.toNat := hword
    dsimp only
    rw [hvalue]
    refine Post.bind ?_
    generalize hfirst : slotWord original location.toNat = value at hapart hword ⊢
    cases hlinked : linkedPointer blob header value with
    | error message =>
      refine Post.raise fun h => ?_
      have hmem : location.toNat ∈ (if pointerDelta value = 0 then ([location.toNat], true)
          else (location.toNat :: (slotsFrom original (page.toNat + 4096) fuel
              (location.toNat + (pointerDelta value).toNat)).1,
            (slotsFrom original (page.toNat + 4096) fuel
              (location.toNat + (pointerDelta value).toNat)).2)).1 := by
        split
        · exact List.mem_cons_self
        · exact List.mem_cons_self
      obtain ⟨linked, hl⟩ := h.2 _ hmem
      rw [hfirst, ← linkedPointer_ok_iff, hlinked] at hl
      cases hl
    | ok linked =>
      have hlinks := linkedPointer_ok_iff.mp hlinked
      refine Post.pure (Post.bind (post_accessing (Post.mono (writeWord_accessible hs1
        (hpasses.noneFails hs1.regular.inv hno1)
        (fun k hk => (hacc1.word hle hin k hk).2) hacc1) ?_
        fun _ _ h => h.elim)))
      rintro _ s2 ⟨hs2, hpages, hacc2⟩
      by_cases hdelta : pointerDelta value = 0
      · rw [if_pos hdelta]
        simp only [if_pos hdelta]
        refine Post.pure ⟨⟨rfl, fun slot hslot => ?_⟩, _, hs2.depicts, linked, ?_, rfl⟩
        · rw [List.mem_singleton.mp hslot, hfirst]
          exact ⟨linked, hlinks⟩
        · rw [hword]
          exact hlinks
      · rw [if_neg hdelta]
        simp only [if_neg hdelta] at hapart ⊢
        obtain ⟨k, hk, hfour⟩ := pointerDelta_toNat value
        have hleaves : page.toNat + 4096 < location.toNat + (pointerDelta value).toNat + 8 →
            ¬Linkable blob header original (location.toNat :: (slotsFrom original
                (page.toNat + 4096) fuel (location.toNat + (pointerDelta value).toNat)).1,
              (slotsFrom original (page.toNat + 4096) fuel
                (location.toNat + (pointerDelta value).toNat)).2) := by
          rintro hout ⟨hstays, -⟩
          rw [slotsFrom_outside hout] at hstays
          cases hstays
        refine Post.bind (Post.raiseIf (fun htest => hleaves ?_) fun htest => ?_)
        · exact outside_of_test hpage hle hin (of_decide_eq_true htest)
        · have hsecond := not_or.mp (of_decide_eq_false htest)
          have hnext := hbudget.next hle hin hdelta ⟨k, hk, hfour⟩ (not_or.mp hsecond.2).1
          rcases inside_of_test hpage hle hin hsecond with ⟨hsum, hin'⟩ | habove
          · rw [← hsum] at hapart ⊢
            -- the next slot is in the page, so it does not overlap this one
            have hstep : location.toNat + 8 ≤ (location + pointerDelta value).toNat := by
              have hne := (List.pairwise_cons.mp hapart).1 _ (mem_slotsFrom hin' hnext.1)
              omega
            refine Post.mono (followChain_links hpage hs2 (hpages _ _ hno1) hacc2 hnext (by omega)
              hin' (fun i hi => ?_) (List.pairwise_cons.mp hapart).2) ?_ ?_
            · rw [putWord_outside (by omega)]
              exact hagree i (by omega)
            · rintro _ s3 ⟨⟨hstays, hall⟩, memory', hd, hrewrites⟩
              refine ⟨⟨hstays, fun slot hmem => ?_⟩, memory', hd, linked, ?_, hrewrites⟩
              · rcases List.mem_cons.mp hmem with rfl | hmem
                · rw [hfirst]
                  exact ⟨linked, hlinks⟩
                · exact hall slot hmem
              · rw [hword]
                exact hlinks
            · intro _ s3 hnot h
              exact hnot ⟨h.1, fun slot hmem => h.2 slot (List.mem_cons_of_mem _ hmem)⟩
          · refine Post.mono (followChain_unmapped hs2 (hpages _ _ hno1) habove.2)
              (fun _ _ h => h.elim) fun _ _ _ => hleaves habove.1

/-! ## The table of chained starts -/

section

variable (blob : List Byte)

/-- The header of a blob that has one. -/
def headerOf : LinkHeader where
  pointerFormat := blobField blob 6 2
  bindsOffset := blobField blob 8 4
  bindsCount := blobField blob 12 4
  chainsOffset := blobField blob 16 4
  slide := BitVec.ofNat 64 (blobField blob 24 8)
  imageAddress := BitVec.ofNat 64 (blobField blob 32 8)
  segCount := blobField blob (blobField blob 16 4) 4

/-- `seg_info_offset` of an entry; 0 for a segment without fixups. -/
def infoOffset (i : Nat) : Nat := blobField blob ((headerOf blob).chainsOffset + 4 + i * 4) 4

def segmentOffset (i : Nat) : Nat := (headerOf blob).chainsOffset + infoOffset blob i

def segmentAddress (i : Nat) : Nat :=
  (headerOf blob).imageAddress.toNat + blobField blob (segmentOffset blob i + 8) 8

def pageCount (i : Nat) : Nat := blobField blob (segmentOffset blob i + 20) 2

/-- The start of the chain of a page. -/
def pageStart (i page : Nat) : Nat :=
  blobField blob (segmentOffset blob i + 22 + (page - segmentAddress blob i) / 4096 * 2) 2

/-- The blob has a header and a table, and the segments that the table names are in the blob and in
the address space. -/
structure WellFormed : Prop where
  header : 40 ≤ blob.length
  table : (headerOf blob).chainsOffset + 4 + (headerOf blob).segCount * 4 ≤ blob.length
  offsets : (headerOf blob).chainsOffset + 4 + (headerOf blob).segCount * 4 ≤ 2 ^ 32
  size : ∀ i < (headerOf blob).segCount, infoOffset blob i ≠ 0 →
    24 ≤ blobField blob (segmentOffset blob i) 4 ∧
      segmentOffset blob i + blobField blob (segmentOffset blob i) 4 ≤ blob.length
  starts : ∀ i < (headerOf blob).segCount, infoOffset blob i ≠ 0 →
    22 + pageCount blob i * 2 ≤ blobField blob (segmentOffset blob i) 4
  addresses : ∀ i < (headerOf blob).segCount, infoOffset blob i ≠ 0 →
    segmentAddress blob i + pageCount blob i * 4096 < 2 ^ 64

/-- The segment of an entry covers the page. -/
def Covers (page i : Nat) : Prop :=
  i < (headerOf blob).segCount ∧ infoOffset blob i ≠ 0 ∧ segmentAddress blob i ≤ page ∧
    page < segmentAddress blob i + pageCount blob i * 4096

/-- The first entry whose segment covers the page. -/
def FirstCovers (page i : Nat) : Prop := Covers blob page i ∧ ∀ j < i, ¬Covers blob page j

end

theorem readHeader_ok (h : WellFormed blob) : readHeader blob = .ok (headerOf blob) := by
  have h1 := h.header
  have h2 := h.table
  have hchains : (headerOf blob).chainsOffset = blobField blob 16 4 := rfl
  unfold readHeader
  rw [readMapWithLinkingField_ok (by omega), readMapWithLinkingField_ok (by omega),
    readMapWithLinkingField_ok (by omega), readMapWithLinkingField_ok (by omega),
    readMapWithLinkingField_ok (by omega), readMapWithLinkingField_ok (by omega)]
  show (readMapWithLinkingField blob (blobField blob 16 4) 4 >>= fun segCount => _) = _
  rw [readMapWithLinkingField_ok (by omega)]
  rfl

/-- A segment of the table is read as it is. -/
theorem segmentStart_eq (h : WellFormed blob) {i : Nat} (hi : i < (headerOf blob).segCount)
    (hne : infoOffset blob i ≠ 0) (page : BitVec 64) :
    segmentStart blob (headerOf blob).imageAddress page (segmentOffset blob i) =
      .ok (if segmentAddress blob i ≤ page.toNat ∧
          page.toNat < segmentAddress blob i + pageCount blob i * 4096 then
        some (pageStart blob i page.toNat) else none) := by
  obtain ⟨hsize, hfits⟩ := h.size i hi hne
  have hstarts := h.starts i hi hne
  have haddresses := h.addresses i hi hne
  have hcount : blobField blob (segmentOffset blob i + 20) 2 = pageCount blob i := rfl
  have haddress : segmentAddress blob i = (headerOf blob).imageAddress.toNat +
      blobField blob (segmentOffset blob i + 8) 8 := rfl
  have hstart : ((headerOf blob).imageAddress +
      BitVec.ofNat 64 (blobField blob (segmentOffset blob i + 8) 8)).toNat =
        segmentAddress blob i := by
    rw [BitVec.toNat_add, BitVec.toNat_ofNat, haddress]
    omega
  have hend : ((headerOf blob).imageAddress +
      BitVec.ofNat 64 (blobField blob (segmentOffset blob i + 8) 8) +
      BitVec.ofNat 64 (pageCount blob i * guestPageSize)).toNat =
        segmentAddress blob i + pageCount blob i * 4096 := by
    rw [BitVec.toNat_add, hstart, BitVec.toNat_ofNat]
    show (_ + pageCount blob i * 4096 % _) % _ = _
    omega
  unfold segmentStart
  rw [if_neg (by omega), readMapWithLinkingField_ok (by omega),
    readMapWithLinkingField_ok (by omega), readMapWithLinkingField_ok (by omega)]
  dsimp only [bind, Except.bind]
  rw [hcount, if_neg (by omega)]
  generalize hbase : (headerOf blob).imageAddress +
    BitVec.ofNat 64 (blobField blob (segmentOffset blob i + 8) 8) = base at hstart hend ⊢
  generalize hlimit : base + BitVec.ofNat 64 (pageCount blob i * guestPageSize) = limit at hend ⊢
  by_cases hcovers : segmentAddress blob i ≤ page.toNat ∧
      page.toNat < segmentAddress blob i + pageCount blob i * 4096
  · rw [if_pos hcovers, if_neg ?_]
    · have hindex : (page - base).toNat = page.toNat - segmentAddress blob i := by
        rw [BitVec.toNat_sub_of_le (BitVec.le_def.mpr (by omega)), hstart]
      have hpages : (page.toNat - segmentAddress blob i) / 4096 < pageCount blob i :=
        Nat.div_lt_of_lt_mul (by omega)
      rw [hindex]
      have hread : readMapWithLinkingField blob (segmentOffset blob i + 22 +
          (page.toNat - segmentAddress blob i) / guestPageSize * 2) 2 =
            .ok (pageStart blob i page.toNat) := by
        rw [readMapWithLinkingField_ok]
        · rfl
        · show _ + _ / 4096 * 2 + 2 ≤ _
          omega
      rw [hread]
      rfl
    · rw [BitVec.lt_def, BitVec.le_def]
      omega
  · rw [if_neg hcovers, if_pos ?_]
    · rfl
    · rw [BitVec.lt_def, BitVec.le_def]
      omega

/-- An entry is read from its place. -/
theorem readInfoOffset (h : WellFormed blob) {i : Nat} (hi : i < (headerOf blob).segCount) :
    readMapWithLinkingField blob (((headerOf blob).chainsOffset + 4 + i * 4) % 2 ^ 32) 4 =
      .ok (infoOffset blob i) := by
  have htable := h.table
  have hoffsets := h.offsets
  rw [Nat.mod_eq_of_lt (by omega), readMapWithLinkingField_ok (by omega)]
  rfl

/-- The table itself, read as a segment, does not mislead the search for the page of an entry : it
passes for a segment of other pages, or for one that has the same start for the page. -/
def Harmless (blob : List Byte) (page : BitVec 64) (i : Nat) : Prop :=
  ∀ start, segmentStart blob (headerOf blob).imageAddress page (headerOf blob).chainsOffset = start →
    start = .ok none ∨ start = .ok (some (pageStart blob i page.toNat))

/-- The search finds the start of the page's chain if no entry without fixups misleads it. -/
theorem findStart_eq (h : WellFormed blob) {i : Nat} (hi : FirstCovers blob page.toNat i)
    (hempty : ∀ j < i, infoOffset blob j = 0 → Harmless blob page i) :
    ∀ {remaining k : Nat}, k + remaining = (headerOf blob).segCount → k ≤ i →
      findStart blob (headerOf blob) page remaining k = .ok (pageStart blob i page.toNat)
  | 0, k, hk, hle => by
    have := hi.1.1
    omega
  | remaining + 1, k, hk, hle => by
    have hturn : (k < i ∧ segmentStart blob (headerOf blob).imageAddress page
          (segmentOffset blob k) = .ok none) ∨
        segmentStart blob (headerOf blob).imageAddress page (segmentOffset blob k) =
          .ok (some (pageStart blob i page.toNat)) := by
      rcases Nat.lt_or_eq_of_le hle with hlt | rfl
      · by_cases hzero : infoOffset blob k = 0
        · have hoffset : segmentOffset blob k = (headerOf blob).chainsOffset := by
            rw [segmentOffset, hzero, Nat.add_zero]
          rw [hoffset]
          exact (hempty k hlt hzero _ rfl).imp (fun hnone => ⟨hlt, hnone⟩) id
        · rw [segmentStart_eq h (by omega) hzero, if_neg]
          · exact .inl ⟨hlt, rfl⟩
          · exact fun hcovers => hi.2 k hlt ⟨by omega, hzero, hcovers⟩
      · rw [segmentStart_eq h hi.1.1 hi.1.2.1, if_pos hi.1.2.2]
        exact .inr rfl
    rw [findStart, readInfoOffset h (by omega)]
    dsimp only [bind, Except.bind]
    unfold segmentOffset at hturn
    rcases hturn with ⟨hlt, hnone⟩ | hsome
    · rw [hnone]
      exact findStart_eq h hi hempty (by omega) hlt
    · rw [hsome]
      rfl

/-! ## The page -/

/-- The slots of the chain that starts at an offset of the page; there is none at `0xFFFF`. -/
def pageSlots (memory : Nat → Byte) (page : BitVec 64) (start : Nat) : List Nat × Bool :=
  if start = 0xFFFF then ([], true)
  else slotsFrom memory (page.toNat + 4096) 4096 (page.toNat + start)

/-- The walk ends, with an exception or not, and has changed the page only. -/
def Contained (blob : List Byte) (page : BitVec 64) : Prop :=
  ∀ s memory, Shown memory s → NoneFails s page.toNat 4096 →
    Post (applyMapWithLinkingPageFixups blob page) s (fun _ s' => OutsideKept page memory s')
      fun e s' => e ≠ .running ∧ OutsideKept page memory s'

/-- All slots of the page's chain are linked and all other bytes are as they were, or the chain
leaves the page or has a pointer that cannot be linked. -/
def LinksPage (blob : List Byte) (page : BitVec 64) (start : Nat) : Prop :=
  ∀ s memory, Shown memory s → NoneFails s page.toNat 4096 → PageAccessible page s →
    Apart (pageSlots memory page start).1 →
    Post (applyMapWithLinkingPageFixups blob page) s
      (fun _ s' => Linkable blob (headerOf blob) memory (pageSlots memory page start) ∧
        ∃ memory', Depicts memory' s'.settled ∧
          (∀ slot ∈ (pageSlots memory page start).1,
            LinksTo blob (headerOf blob) (slotWord memory slot) (slotWord memory' slot)) ∧
          ∀ i, (∀ slot ∈ (pageSlots memory page start).1, i < slot ∨ slot + 8 ≤ i) →
            memory' i = memory i)
      fun _ _ => ¬Linkable blob (headerOf blob) memory (pageSlots memory page start)

theorem post_ofBlob {α β : Type} {x : Except String α} {f : α → Fixup β} {s : AddressSpace}
    {Q : β → AddressSpace → Prop} {F : FixupError → AddressSpace → Prop}
    (hok : ∀ a, x = .ok a → Post (f a) s Q F)
    (herror : ∀ message, x = .error message → F (.outOfRange message) s) :
    Post (ofBlob x >>= f) s Q F := by
  cases hx : x with
  | ok a => exact hok a hx
  | error message => exact herror message hx

/-- Whatever the blob and the page hold, linking ends and stays in the page. -/
theorem contained (blob : List Byte) (page : BitVec 64) : Contained blob page := by
  intro s memory hs hno
  have hsame : OutsideKept page memory s := ⟨memory, hs.depicts, fun _ _ => rfl⟩
  refine post_ofBlob (fun header hheader => ?_) fun _ _ => ⟨nofun, hsame⟩
  refine post_ofBlob (fun start hstart => ?_) fun _ _ => ⟨nofun, hsame⟩
  split
  · exact Post.pure hsame
  · refine followChain_contained hs hno ⟨by decide, fun hle _ => by omega⟩

theorem PageAccessible.below (h : PageAccessible page s) (hi : Inv s) :
    page.toNat + 4096 ≤ 2 ^ 64 - 4096 := by
  obtain ⟨⟨i, m, hf, -⟩, -⟩ := h 4095 (by decide)
  have hlimit := hf.limit
  have := mapped_below hi hf.mem
  omega

/-- A chain that starts outside the page is not followed. -/
theorem followChain_outside {fuel start : Nat} (hs : Shown memory s)
    (hno : NoneFails s page.toNat 4096) (hsmall : start < 2 ^ 64) (hout : 4096 < start + 8) :
    Post (followChain blob header page (fuel + 1) (page + BitVec.ofNat 64 start)) s
      (fun _ _ => False) fun _ _ => True := by
  by_cases habove : 2 ^ 64 - 4096 < (page + BitVec.ofNat 64 start).toNat + 8
  · exact followChain_unmapped hs hno habove
  · have hfails : ¬PassesTest page (page + BitVec.ofNat 64 start) := by
      intro h
      have hle := h.le
      have hin := h.inside (by omega)
      rw [BitVec.toNat_add, BitVec.toNat_ofNat] at hle hin
      omega
    rw [followChain]
    refine Post.bind (Post.raiseIf (fun _ => trivial) fun htest => ?_)
    exact absurd (of_decide_eq_false htest) hfails

/-- The page of a segment that the search finds is linked. -/
theorem linksPage_of_harmless (h : WellFormed blob) {i : Nat} (hi : FirstCovers blob page.toNat i)
    (hempty : ∀ j < i, infoOffset blob j = 0 → Harmless blob page i) :
    LinksPage blob page (pageStart blob i page.toNat) := by
  intro s memory hs hno hacc hapart
  have hfound := findStart_eq h hi hempty (Nat.zero_add _) (Nat.zero_le i)
  refine post_ofBlob (fun header hheader => ?_) fun message hheader => ?_
  swap
  · rw [readHeader_ok h] at hheader
    cases hheader
  rw [readHeader_ok h] at hheader
  obtain rfl := Except.ok.inj hheader
  refine post_ofBlob (fun start hstart => ?_) fun message hstart => ?_
  swap
  · rw [hfound] at hstart
    cases hstart
  rw [hfound] at hstart
  obtain rfl := Except.ok.inj hstart
  have hsmall : pageStart blob i page.toNat < 2 ^ 64 := BitVec.isLt _
  generalize pageStart blob i page.toNat = start at hapart hsmall ⊢
  unfold pageSlots at hapart ⊢
  by_cases hnone : start = 0xFFFF
  · rw [if_pos hnone]
    simp only [if_pos hnone]
    exact Post.pure ⟨⟨rfl, fun slot hmem => absurd hmem List.not_mem_nil⟩, memory, hs.depicts,
      fun slot hmem => absurd hmem List.not_mem_nil, fun _ _ => rfl⟩
  rw [if_neg hnone]
  simp only [if_neg hnone] at hapart ⊢
  have hpage := hacc.below hs.regular.inv
  rcases Nat.lt_or_ge 4096 (start + 8) with hout | hin
  · rw [slotsFrom_outside (by omega)]
    exact Post.mono (followChain_outside hs hno hsmall hout) (fun _ _ h => h.elim)
      fun _ _ _ h => by cases h.1
  · have hlocation : (page + BitVec.ofNat 64 start).toNat = page.toNat + start := by
      rw [BitVec.toNat_add, BitVec.toNat_ofNat]
      omega
    rw [← hlocation] at hapart ⊢
    refine Post.mono (followChain_links hpage hs hno hacc ⟨by decide, fun _ _ => by omega⟩
      (by omega) (by omega) (fun _ _ => rfl) hapart) ?_ fun _ _ h => h
    rintro _ s' ⟨hlinkable, memory', hd, hrewrites⟩
    exact ⟨hlinkable, memory', hd, hrewrites.inside hapart, fun _ hi => hrewrites.outside hi⟩

/-- A blob of an image at `0x1000` with one segment of one page that has no chain. -/
def smallBlob (infoOffsets : List (BitVec 32)) : List Byte :=
  littleEndian 4 (7 : BitVec 32) ++ littleEndian 2 (4096 : BitVec 16) ++
    littleEndian 2 (6 : BitVec 16) ++ littleEndian 8 (0 : BitVec 64) ++
    littleEndian 4 (40 : BitVec 32) ++ littleEndian 4 (36 : BitVec 32) ++
    littleEndian 8 (0 : BitVec 64) ++ littleEndian 8 (0x1000 : BitVec 64) ++
    littleEndian 4 (BitVec.ofNat 32 infoOffsets.length) ++ infoOffsets.flatMap (littleEndian 4) ++
    littleEndian 4 (24 : BitVec 32) ++ littleEndian 4 (0 : BitVec 32) ++
    littleEndian 8 (0 : BitVec 64) ++ littleEndian 4 (0 : BitVec 32) ++
    littleEndian 2 (1 : BitVec 16) ++ littleEndian 2 (0xFFFF : BitVec 16)

/-- A page of data. -/
def dataPageCalls : List Call :=
  [.mapAnonymous 0x1000 0x1000 { read := true, write := true } { read := true, write := true }
    "data" none]

theorem dataPage_accessible : PageAccessible 0x1000 (afterAll {} dataPageCalls) := by
  have hmapping : ((afterAll {} dataPageCalls).mappings[0]?.map fun m =>
      (m.base, m.size, m.permissions, m.readableBytes.size)) =
        some (0x1000, 0x1000, { read := true, write := true }, 0) := by decide +kernel
  obtain ⟨m, hm, hfields⟩ := Option.map_eq_some_iff.mp hmapping
  obtain ⟨hbase, hsize, hpermissions, hsparse⟩ : m.base = 0x1000 ∧ m.size = 0x1000 ∧
      m.permissions = { read := true, write := true } ∧ m.readableBytes.size = 0 := by
    simpa using hfields
  intro k hk
  have hpage : (0x1000 : BitVec 64).toNat = 0x1000 := rfl
  refine ⟨⟨0, m, ⟨hm, by omega, by omega, ?_⟩, .inl hsparse⟩, 0, m, hm, by omega, by omega, ?_⟩
  · rw [hpermissions]
    rfl
  · rw [hpermissions]
    rfl

end Rosa.Darwin
