import Rosa.Guest.LazyPages

/-!
# The image under a lazy transform

A mapping with a lazy transform should look as if every page of its file had been
transformed when the transform was installed : a byte that is read is the byte of that
image, or the one the guest stored there last. `materialize` marks a page only when the
callback returns, so a callback that throws half way leaves its changes in the file and
meets them again at the next use of the page. `Tracks` is the invariant of the bytes of
one transform, and it needs that a callback that throws has changed nothing.
-/

namespace Rosa

/-- The callback works on one page of `original` alone : whatever the other pages hold, it
ends the same way, writes the same bytes to its page and leaves the others. -/
def WorksByPage (transform : PageTransform) (pageSize size : Nat) (original : Nat → Byte) : Prop :=
  ∀ bytes page, (∀ i < size, i / pageSize = page → bytes i = original i) →
    (transform size bytes page).2 = (transform size original page).2 ∧
      ∀ i < size, (transform size bytes page).1 i =
        if i / pageSize = page then (transform size original page).1 i else bytes i

/-- A callback that throws on a page of `original` has not changed it. -/
def FailsCleanly (transform : PageTransform) (pageSize size : Nat) (original : Nat → Byte) : Prop :=
  ∀ page, (transform size original page).2.isSome = true →
    ∀ i < size, i / pageSize = page → (transform size original page).1 i = original i

/-- The image with its first `count` pages transformed, in order. -/
def transformedImage (transform : PageTransform) (size : Nat) (original : Nat → Byte)
    (count : Nat) : Nat → Byte :=
  (List.range count).foldl (fun bytes page => (transform size bytes page).1) original

theorem transformedImage_eq {transform : PageTransform} {pageSize size : Nat}
    {original : Nat → Byte} (h : WorksByPage transform pageSize size original) :
    ∀ (count : Nat) {i : Nat}, i < size → transformedImage transform size original count i =
      if i / pageSize < count then (transform size original (i / pageSize)).1 i else original i
  | 0, _, _ => rfl
  | count + 1, i, hi => by
    have hstep : transformedImage transform size original (count + 1) =
        (transform size (transformedImage transform size original count) count).1 := by
      simp [transformedImage, List.range_succ]
    have hpage (j : Nat) (hj : j < size) (hp : j / pageSize = count) :
        transformedImage transform size original count j = original j := by
      rw [transformedImage_eq h count hj, if_neg (by omega)]
    rw [hstep, (h _ count hpage).2 i hi]
    by_cases hp : i / pageSize = count
    · rw [if_pos hp, if_pos (by omega), hp]
    · rw [if_neg hp, transformedImage_eq h count hi]
      simp only [show i / pageSize < count + 1 ↔ i / pageSize < count by omega]

/-- The bytes a lazy transform was installed on, as they were then. -/
structure LazyRegion where
  base : Nat
  size : Nat
  file : FileId
  fileDataOffset : Nat
  id : TransformId
  pageSize : Nat
  transform : PageTransform
  original : Nat → Byte

namespace LazyRegion

/-- The address is in the region. -/
def Holds (r : LazyRegion) (address : Nat) : Prop :=
  r.base ≤ address ∧ address < r.base + r.size

/-- What the callback makes of the byte at an offset. -/
def transformed (r : LazyRegion) (offset : Nat) : Byte :=
  (r.transform r.size r.original (offset / r.pageSize)).1 offset

/-- The callback returns on the page of an offset. -/
def Returns (r : LazyRegion) (offset : Nat) : Prop :=
  (r.transform r.size r.original (offset / r.pageSize)).2 = none

end LazyRegion

namespace AddressSpace

open Rosa.Computation

/-- The byte of the file at an offset of the region : the original one before its page is
transformed, and the expected one after. -/
def ByteTracks (r : LazyRegion) (expected : Nat → Byte) (pages : Nat → Bool) (data : Nat → Byte)
    (offset : Nat) : Prop :=
  (pages (offset / r.pageSize) = true ∧ r.Returns offset ∧
      data (r.fileDataOffset + offset) = expected (r.base + offset)) ∨
    (pages (offset / r.pageSize) = false ∧ data (r.fileDataOffset + offset) = r.original offset ∧
      expected (r.base + offset) = r.transformed offset)

/-- Who shares the bytes of the region. -/
structure Placement (r : LazyRegion) (s : AddressSpace) : Prop where
  transform : (s.transforms r.id).dataOffset = r.fileDataOffset ∧
    (s.transforms r.id).size = r.size ∧ (s.transforms r.id).pageSize = r.pageSize ∧
    (s.transforms r.id).transform = r.transform
  pieces : ∀ p ∈ s.mappings, ∀ a, p.base ≤ a → a < p.base + p.size → r.Holds a →
    p.fileBytes = some r.file ∧ p.lazyFileTransform = some r.id
  shift : ∀ p ∈ s.mappings, p.fileBytes = some r.file →
    p.fileDataOffset + r.base = r.fileDataOffset + p.base
  sameFile : ∀ p ∈ s.mappings, p.lazyFileTransform = some r.id → p.fileBytes = some r.file
  separate : ∀ p ∈ s.mappings, ∀ u, p.lazyFileTransform = some u → u ≠ r.id →
    p.fileBytes = some r.file → ∀ o < r.size, ¬(s.transforms u).Covers (r.fileDataOffset + o)

/-- The region shows the expected bytes. -/
structure Tracks (r : LazyRegion) (expected : Nat → Byte) (s : AddressSpace) : Prop where
  placement : Placement r s
  bytes : ∀ o < r.size, ByteTracks r expected (s.transforms r.id).transformedPages
    (s.files r.file).data o

variable {r : LazyRegion} {expected : Nat → Byte} {s s' : AddressSpace} {m : Mapping}

/-! ## Placement -/

theorem Placement.of_sameShape (h : Placement r s) (hs : SameShape s s') : Placement r s' := by
  obtain ⟨e1, e2, e3, e4⟩ := hs.transforms r.id
  obtain ⟨t1, t2, t3, t4⟩ := h.transform
  refine ⟨⟨e1.trans t1, e2.trans t2, e3.trans t3, e4.trans t4⟩, ?_, ?_, ?_, ?_⟩
  · intro p hp a h1 h2 ha
    obtain ⟨m, hm, he⟩ := hs.mem hp
    rw [he.base] at h1 h2
    rw [he.size] at h2
    rw [he.fileBytes, he.lazyFileTransform]
    exact h.pieces m hm a h1 h2 ha
  · intro p hp hf
    obtain ⟨m, hm, he⟩ := hs.mem hp
    rw [he.fileDataOffset, he.base]
    exact h.shift m hm (he.fileBytes ▸ hf)
  · intro p hp ht
    obtain ⟨m, hm, he⟩ := hs.mem hp
    rw [he.fileBytes]
    exact h.sameFile m hm (he.lazyFileTransform ▸ ht)
  · intro p hp u hu hne hf o ho
    obtain ⟨m, hm, he⟩ := hs.mem hp
    obtain ⟨u1, u2, -⟩ := hs.transforms u
    rw [LazyFilePageTransform.Covers, u1, u2]
    exact h.separate m hm u (he.lazyFileTransform ▸ hu) hne (he.fileBytes ▸ hf) o ho

/-- The mappings may be cut into slices. -/
theorem Placement.flatMap {pieces : Mapping → List Mapping} {flag : Bool} (h : Placement r s)
    (hslice : ∀ m ∈ s.mappings, ∀ p ∈ pieces m, IsSlice m p) :
    Placement r (bumped flag (invalidateMappingLookup
      { s with mappings := s.mappings.flatMap pieces })) := by
  have hsource {p : Mapping} (hp : p ∈ s.mappings.flatMap pieces) :
      ∃ m ∈ s.mappings, IsSlice m p := by
    obtain ⟨m, hm, hp⟩ := List.mem_flatMap.mp hp
    exact ⟨m, hm, hslice m hm p hp⟩
  refine ⟨h.transform, ?_, ?_, ?_, ?_⟩
  · intro p hp a h1 h2 ha
    obtain ⟨m, hm, hs⟩ := hsource hp
    rw [hs.fileBytes, hs.lazyFileTransform]
    have := hs.base
    have := hs.limit
    exact h.pieces m hm a (by omega) (by omega) ha
  · intro p hp hf
    obtain ⟨m, hm, hs⟩ := hsource hp
    have := h.shift m hm (hs.fileBytes ▸ hf)
    have := hs.shift
    omega
  · intro p hp ht
    obtain ⟨m, hm, hs⟩ := hsource hp
    rw [hs.fileBytes]
    exact h.sameFile m hm (hs.lazyFileTransform ▸ ht)
  · intro p hp u hu hne hf
    obtain ⟨m, hm, hs⟩ := hsource hp
    exact h.separate m hm u (hs.lazyFileTransform ▸ hu) hne (hs.fileBytes ▸ hf)

/-! ## One change -/

theorem Tracks.flatMap {pieces : Mapping → List Mapping} {flag : Bool} (h : Tracks r expected s)
    (hslice : ∀ m ∈ s.mappings, ∀ p ∈ pieces m, IsSlice m p) :
    Tracks r expected (bumped flag (invalidateMappingLookup
      { s with mappings := s.mappings.flatMap pieces })) :=
  ⟨h.placement.flatMap hslice, h.bytes⟩

theorem Tracks.bump {flag : Bool} (h : Tracks r expected s) : Tracks r expected (bumped flag s) :=
  ⟨⟨h.placement.transform, h.placement.pieces, h.placement.shift, h.placement.sameFile,
    h.placement.separate⟩, h.bytes⟩

/-- A page is transformed in place, unless the callback throws. -/
theorem byteTracks_transformPage {t : LazyFilePageTransform} {data : Nat → Byte} {page : Nat}
    (hlocal : WorksByPage r.transform r.pageSize r.size r.original)
    (hclean : FailsCleanly r.transform r.pageSize r.size r.original)
    (ht : t.dataOffset = r.fileDataOffset ∧ t.size = r.size ∧ t.pageSize = r.pageSize ∧
      t.transform = r.transform)
    (hbytes : ∀ o < r.size, ByteTracks r expected t.transformedPages data o)
    (hnew : t.transformedPages page = false) {o : Nat} (ho : o < r.size) :
    ByteTracks r expected
      (if (transformPage t data page).2.isSome then t.transformedPages
        else Function.update t.transformedPages page true) (transformPage t data page).1 o := by
  obtain ⟨t1, t2, t3, t4⟩ := ht
  have hfresh (i : Nat) (hi : i < r.size) (hp : i / r.pageSize = page) :
      data (r.fileDataOffset + i) = r.original i := by
    rcases hbytes i hi with ⟨hdone, -⟩ | ⟨-, h, -⟩
    · simp [hp, hnew] at hdone
    · exact h
  obtain ⟨hend, hdata⟩ := hlocal (fun i => data (r.fileDataOffset + i)) page hfresh
  have hthrown : (transformPage t data page).2 = (r.transform r.size r.original page).2 := by
    rw [← hend]
    simp [transformPage, t1, t2, t4]
  have hbyte : (transformPage t data page).1 (r.fileDataOffset + o) =
      if o / r.pageSize = page then (r.transform r.size r.original page).1 o
      else data (r.fileDataOffset + o) := by
    rw [← hdata o ho]
    simp [transformPage, t1, t2, t4, ho]
  rw [hthrown]
  unfold ByteTracks
  rw [hbyte]
  by_cases hp : o / r.pageSize = page
  · simp only [hp, if_true]
    rcases hbytes o ho with ⟨hdone, -⟩ | ⟨-, -, hexpected⟩
    · simp [hp, hnew] at hdone
    · cases hthrow : (r.transform r.size r.original page).2 with
      | some message =>
        exact .inr ⟨hnew, hclean page (by simp [hthrow]) o ho hp, hexpected⟩
      | none =>
        refine .inl ⟨by simp, ?_, ?_⟩
        · rw [LazyRegion.Returns, hp, hthrow]
        · rw [hexpected, LazyRegion.transformed, hp]
  · have hkeep : (if (r.transform r.size r.original page).2.isSome then t.transformedPages
        else Function.update t.transformedPages page true) (o / r.pageSize) =
        t.transformedPages (o / r.pageSize) := by
      split
      · rfl
      · exact Function.update_of_ne hp _ _
    rw [hkeep, if_neg hp]
    exact hbytes o ho

/-- Another transform does not reach the region. -/
theorem Tracks.applyTransform_other (h : Tracks r expected s) (page : Nat) (hm : m ∈ s.mappings)
    {f : FileId} {t : TransformId} (hfile : m.fileBytes = some f)
    (hlazy : m.lazyFileTransform = some t) (hne : t ≠ r.id) {o : Nat} (ho : o < r.size) :
    ((applyTransform f t page s).transforms r.id) = s.transforms r.id ∧
      ((applyTransform f t page s).files r.file).data (r.fileDataOffset + o) =
        (s.files r.file).data (r.fileDataOffset + o) := by
  constructor
  · simp only [applyTransform]
    split
    · rfl
    · exact Function.update_of_ne hne.symm _ _
  · by_cases hf : f = r.file
    · subst hf
      have := h.placement.separate m hm t hlazy hne hfile o ho
      rw [LazyFilePageTransform.Covers] at this
      simp only [applyTransform, Function.update_self, transformPage]
      rw [if_neg (by simpa using this)]
    · simp [applyTransform, Function.update_of_ne (Ne.symm hf)]

theorem Tracks.applyTransform (h : Tracks r expected s)
    (hlocal : WorksByPage r.transform r.pageSize r.size r.original)
    (hclean : FailsCleanly r.transform r.pageSize r.size r.original)
    (hm : m ∈ s.mappings) {f : FileId} {t : TransformId} {page : Nat} (hfile : m.fileBytes = some f)
    (hlazy : m.lazyFileTransform = some t) (hnew : (s.transforms t).transformedPages page = false)
    (hs : SameShape s (AddressSpace.applyTransform f t page s)) :
    Tracks r expected (AddressSpace.applyTransform f t page s) := by
  refine ⟨h.placement.of_sameShape hs, fun o ho => ?_⟩
  by_cases ht : t = r.id
  · subst ht
    obtain rfl : r.file = f := by simpa [hfile] using (h.placement.sameFile m hm hlazy).symm
    have := byteTracks_transformPage hlocal hclean h.placement.transform h.bytes hnew ho
    simp only [AddressSpace.applyTransform, Function.update_self]
    split at this
    · next hthrow => simpa [hthrow] using this
    · next hthrow => simpa [hthrow] using this
  · obtain ⟨h1, h2⟩ := h.applyTransform_other page hm hfile hlazy ht ho
    have := h.bytes o ho
    unfold ByteTracks at this ⊢
    rwa [h1, h2]

/-- A store of the guest shows in the region. -/
theorem Tracks.storeBytes (h : Tracks r expected s) {i offset : Nat} {data : List Byte}
    (hm : s.mappings[i]? = some m) (hfits : offset + data.length ≤ m.size)
    (hready : ∀ k < data.length, s.Ready m (offset + k)) :
    Tracks r (overwrite expected (m.base + offset) data) (storeBytes i m offset data s) := by
  have hmem := List.mem_of_getElem? hm
  have htouch : Touch (fun _ => True) s (AddressSpace.storeBytes i m offset data s) :=
    .store hm trivial hfits hready
  have hs := Touches.sameShape (.single htouch)
  refine ⟨h.placement.of_sameShape hs, fun o ho => ?_⟩
  have htransform : (AddressSpace.storeBytes i m offset data s).transforms r.id =
      s.transforms r.id := by
    unfold AddressSpace.storeBytes
    split <;> rfl
  rw [htransform]
  -- a byte of the region that is stored is on a page that was transformed
  have hmine {k : Nat} (hk : k < data.length) (he : r.base + o = m.base + offset + k) :
      m.fileBytes = some r.file ∧
        (s.transforms r.id).transformedPages (o / r.pageSize) = true := by
    obtain ⟨hf, hl⟩ := h.placement.pieces m hmem (m.base + (offset + k)) (by omega) (by omega)
      ⟨by omega, by omega⟩
    have hshift := h.placement.shift m hmem hf
    obtain ⟨t1, -, t3, -⟩ := h.placement.transform
    have := hready k hk r.id hl
    rw [LazyFilePageTransform.pageOf, t1, t3,
      show m.fileDataOffset + (offset + k) - r.fileDataOffset = o by omega] at this
    exact ⟨hf, this⟩
  by_cases hfile : m.fileBytes = some r.file
  · have hshift := h.placement.shift m hmem hfile
    have hdata : ((AddressSpace.storeBytes i m offset data s).files r.file).data =
        overwrite (s.files r.file).data (m.fileDataOffset + offset) data := by
      simp [AddressSpace.storeBytes, hfile]
    rw [hdata]
    rcases h.bytes o ho with ⟨hdone, hret, hb⟩ | ⟨hnew, hb, he⟩
    · exact .inl ⟨hdone, hret, overwrite_shift hb (by omega)⟩
    · have hout (k : Nat) (hk : k < data.length) : r.base + o ≠ m.base + offset + k := fun heq => by
        simp [(hmine hk heq).2] at hnew
      refine .inr ⟨hnew, ?_, ?_⟩
      · rw [overwrite_of_not_mem fun k hk => by have := hout k hk; omega, hb]
      · rw [overwrite_of_not_mem hout, he]
  · have hdata : (AddressSpace.storeBytes i m offset data s).files r.file = s.files r.file := by
      unfold AddressSpace.storeBytes
      split
      · next f hf =>
        have : r.file ≠ f := by
          rintro rfl
          exact hfile hf
        simp [Function.update_of_ne this]
      · rfl
    have hsame : overwrite expected (m.base + offset) data (r.base + o) = expected (r.base + o) :=
      overwrite_of_not_mem fun k hk he => hfile (hmine hk he).1
    have := h.bytes o ho
    unfold ByteTracks at this ⊢
    rwa [hdata, hsame]

/-- Accesses that store nothing. -/
theorem Tracks.touches (hlocal : WorksByPage r.transform r.pageSize r.size r.original)
    (hclean : FailsCleanly r.transform r.pageSize r.size r.original) (h : Tracks r expected s)
    (hs : Touches nowhere s s') : Tracks r expected s' := by
  induction hs with
  | refl => exact h
  | tail _ ht ih =>
    have hshape := Touches.sameShape (.single ht)
    cases ht with
    | lookup hm => exact ⟨ih.placement.of_sameShape hshape, ih.bytes⟩
    | transform hm hf hl ho hnew => exact ih.applyTransform hlocal hclean hm hf hl hnew hshape
    | store _ hno => exact hno.elim

/-! ## Accesses -/

section

variable (hlocal : WorksByPage r.transform r.pageSize r.size r.original)
  (hclean : FailsCleanly r.transform r.pageSize r.size r.original)

/-- The bytes from an address on are the expected ones in the region, and on pages on which
the callback returns. -/
def Shows (r : LazyRegion) (expected : Nat → Byte) (address : Nat) (bytes : List Byte) : Prop :=
  ∀ k < bytes.length, r.Holds (address + k) →
    bytes[k]? = some (expected (address + k)) ∧ r.Returns (address + k - r.base)

theorem Shows.append {address : Nat} {bytes rest : List Byte} (h : Shows r expected address bytes)
    (h' : Shows r expected (address + bytes.length) rest) :
    Shows r expected address (bytes ++ rest) := by
  intro k hk ha
  rw [List.length_append] at hk
  rcases Nat.lt_or_ge k bytes.length with hlt | hge
  · rw [List.getElem?_append_left hlt]
    exact h k hlt ha
  · rw [List.getElem?_append_right hge]
    have hsame : address + bytes.length + (k - bytes.length) = address + k := by omega
    have := h' (k - bytes.length) (by omega) (by rw [hsame]; exact ha)
    rwa [hsame] at this

/-- A byte whose page is ready. -/
theorem Tracks.contents_eq (h : Tracks r expected s) (hm : m ∈ s.mappings) {o : Nat}
    (ho : o < m.size) (hready : s.Ready m o) (ha : r.Holds (m.base + o)) :
    s.contents m o = expected (m.base + o) ∧ r.Returns (m.base + o - r.base) := by
  obtain ⟨hf, hl⟩ := h.placement.pieces m hm (m.base + o) (by omega) (by omega) ha
  have hshift := h.placement.shift m hm hf
  obtain ⟨hlow, hhigh⟩ := ha
  obtain ⟨t1, -, t3, -⟩ := h.placement.transform
  have hpage := hready r.id hl
  rw [LazyFilePageTransform.pageOf, t1, t3,
    show m.fileDataOffset + o - r.fileDataOffset = m.base + o - r.base by omega] at hpage
  rcases h.bytes (m.base + o - r.base) (by omega) with ⟨-, hret, hb⟩ | ⟨hnew, -⟩
  · refine ⟨?_, hret⟩
    rw [show r.base + (m.base + o - r.base) = m.base + o by omega,
      show r.fileDataOffset + (m.base + o - r.base) = m.fileDataOffset + o by omega] at hb
    simpa only [contents, hf] using hb
  · simp [hpage] at hnew

include hlocal hclean

theorem loadChunk_shows (h : Tracks r expected s) (hi : Inv s) (hm : m ∈ s.mappings)
    (hp : m.Accessible) {offset size : Nat} (hfits : offset + size ≤ m.size) :
    ReadSpec s (loadChunk m offset size) fun bytes _ =>
      bytes.length = size ∧ Shows r expected (m.base + offset) bytes := by
  refine (loadChunk_spec hi hm hp hfits).mono fun bytes s' hs hb => ?_
  obtain ⟨rfl, hready⟩ := hb
  have hm' : m ∈ s'.mappings := hs.mappings_eq ▸ hm
  refine ⟨by simp [bytesAt], fun k hk ha => ?_⟩
  have hk' : k < size := by simpa [bytesAt] using hk
  rw [Nat.add_assoc] at ha ⊢
  obtain ⟨hb, hret⟩ := (h.touches hlocal hclean hs).contents_eq hm' (by omega) (hready k hk') ha
  exact ⟨by simp [bytesAt, hk', hb], hret⟩

theorem readFrom_shows : ∀ (fuel cursor remaining : Nat) {s : AddressSpace}, Inv s →
    Tracks r expected s →
    ReadSpec s (readFrom fuel cursor remaining) fun bytes _ => Shows r expected cursor bytes
  | 0, _, _, _, _, _ => .pure (by simp [Shows])
  | fuel + 1, cursor, remaining, s, hi, h => by
    rw [readFrom]
    split
    · exact .pure (by simp [Shows])
    · refine .bind (find_spec hi Nat.one_pos _) fun found s1 hs1 hf => ?_
      obtain ⟨i, m⟩ := found
      have hm : m ∈ s1.mappings := hs1.mappings_eq ▸ hf.mem
      dsimp only at hf ⊢
      generalize hchunk : min remaining (m.size - (cursor - m.base)) = chunk
      obtain ⟨hbase, hfits, hle, hpos, hnext⟩ := hf.chunk hi hchunk
      refine .bind (checkReadable_spec (hs1.inv hi) hm hfits) fun _ s2 hs2 _ => ?_
      have hi2 := hs2.inv (hs1.inv hi)
      have h2 := (h.touches hlocal hclean hs1).touches hlocal hclean hs2
      refine .bind (loadChunk_shows hlocal hclean h2 hi2 (hs2.mappings_eq ▸ hm)
        (hf.accessible (by decide)) hfits) fun bytes s3 hs3 hb => ?_
      obtain ⟨rfl, hshow⟩ := hb
      rw [show m.base + (cursor - m.base) = cursor by omega] at hshow
      rw [Nat.mod_eq_of_lt (show cursor + bytes.length < 2 ^ 64 by omega)]
      exact .bind (readFrom_shows fuel _ _ (hs3.inv hi2) (h2.touches hlocal hclean hs3))
        fun rest _ _ hrest => .pure (hshow.append hrest)

theorem readWord_shows (h : Tracks r expected s) (hi : Inv s) (address size : Nat) :
    ReadSpec s (readWord address size) fun bytes _ => Shows r expected address bytes := by
  unfold readWord
  refine .bind (find_spec hi Nat.one_pos _) fun found s1 hs1 hf => ?_
  obtain ⟨i, m⟩ := found
  have hm : m ∈ s1.mappings := hs1.mappings_eq ▸ hf.mem
  have hbase : m.base ≤ address := hf.base
  have hlimit : address + 1 ≤ m.base + m.size := hf.limit
  have h1 := h.touches hlocal hclean hs1
  dsimp only
  split
  · next hone =>
    refine (loadChunk_shows hlocal hclean h1 (hs1.inv hi) hm (hf.accessible (by decide))
      (by omega)).mono fun bytes _ _ hb => ?_
    rw [show m.base + (address - m.base) = address by omega] at hb
    exact hb.2
  · exact readFrom_shows hlocal hclean _ _ _ (hs1.inv hi) h1

theorem executableBytes_shows (h : Tracks r expected s) (hi : Inv s) (address : Nat) :
    ReadSpec s (executableBytes address) fun bytes _ => Shows r expected address bytes := by
  unfold executableBytes
  refine .bind (find_spec hi Nat.one_pos _) fun found s1 hs1 hf => ?_
  obtain ⟨i, m⟩ := found
  have hm : m ∈ s1.mappings := hs1.mappings_eq ▸ hf.mem
  have hbase : m.base ≤ address := hf.base
  have hlimit : address + 1 ≤ m.base + m.size := hf.limit
  have h1 := h.touches hlocal hclean hs1
  have hp := hf.accessible (by decide)
  dsimp only
  split
  · refine (loadChunk_shows hlocal hclean h1 (hs1.inv hi) hm hp (by omega)).mono
      fun bytes _ _ hb => ?_
    rw [show m.base + (address - m.base) = address by omega] at hb
    exact hb.2
  · next hfile =>
    refine .checkBacking_bind (fun hb => (hs1.inv hi).fits hb hm hp (by omega) hfile)
      fun _ => .pure fun k hk ha => ?_
    have hk' : k < m.bytes.size - (address - m.base) := by simpa [bytesAt] using hk
    have hsize := (hs1.inv hi).shaped m hm |>.bytes
    obtain ⟨hf', -⟩ := h1.placement.pieces m hm (address + k) (by omega) (by omega) ha
    simp [hfile] at hf'

/-- A region that is tracked follows the writes of the guest. -/
theorem followsWrites_tracks : FollowsWrites (Tracks r) where
  touches h hs := h.touches hlocal hclean hs
  stores h hm hfits hready := h.storeBytes hm hfits hready
  bumps h := h.bump

end

/-! ## Runs -/

/-- The calls that read, write, fetch, protect and deallocate. -/
def Call.isUse : Call → Bool
  | .readBytes .. | .readWord .. | .validateAccess .. | .writeBytes .. | .writeWord ..
  | .directMemoryView .. | .executableBytes .. | .protect .. | .deallocate .. => true
  | _ => false

/-- The expected bytes after a call : a write that returns puts its data over them. -/
def Call.overlay (s : AddressSpace) (call : Call) (expected : Nat → Byte) : Nat → Byte :=
  match call, (call.run s).1 with
  | .writeBytes address data, .ok _ => overwrite expected address.toNat data
  | .writeWord address size value, .ok _ => overwrite expected address.toNat (wordBytes size value)
  | _, _ => expected

/-- The expected bytes after a sequence of calls. -/
def overlaid : AddressSpace → List Call → (Nat → Byte) → Nat → Byte
  | _, [], expected => expected
  | s, call :: calls, expected => overlaid (s.after call) calls (call.overlay s expected)

/-- An access to `address` returns `bytes`. -/
inductive Returned (s : AddressSpace) (address : Nat) : List Byte → Prop
  | readBytes {size : Nat} {bytes : List Byte} (h : (readInto address size s).1 = .ok bytes) :
      Returned s address bytes
  | readWord {size : Nat} {bytes : List Byte} (h : (readWord address size s).1 = .ok bytes) :
      Returned s address bytes
  | executableBytes {bytes : List Byte} (h : (executableBytes address s).1 = .ok bytes) :
      Returned s address bytes

/-- The mapping of an exact file mapping that a transform is installed on, as a region. -/
def lazyRegion (s : AddressSpace) (m : Mapping) (file : FileId) (pageSize : Nat)
    (transform : PageTransform) : LazyRegion where
  base := m.base
  size := m.size
  file := file
  fileDataOffset := m.fileDataOffset
  id := s.transformCount
  pageSize := pageSize
  transform := transform
  original := s.contents m

/-- No other mapping has a transform that reaches the bytes of the mapping. -/
def Untransformed (s : AddressSpace) (m : Mapping) : Prop :=
  ∀ a ∈ s.mappings, a ≠ m → a.fileBytes = m.fileBytes → ∀ t, a.lazyFileTransform = some t →
    ∀ o < m.size, ¬(s.transforms t).Covers (m.fileDataOffset + o)

theorem Installed.placement {i pageSize : Nat} {transform : PageTransform} {file : FileId}
    (h : Installed s i pageSize m transform s') (hi : Inv s) (hfile : m.fileBytes = some file)
    (hfree : Untransformed s m) :
    Placement (s.lazyRegion m file pageSize transform) s' := by
  have hm := List.mem_of_getElem? h.index
  have hnew := h.transforms_new
  have hlt := (List.getElem?_eq_some_iff.mp h.index).1
  -- the other mappings are elsewhere
  have hmem {p : Mapping} (hp : p ∈ s'.mappings) :
      p = { m with lazyFileTransform := some s.transformCount } ∨
        (p ∈ s.mappings ∧ p ≠ m) := by
    rw [h.space] at hp
    obtain ⟨j, hj⟩ := List.getElem?_of_mem hp
    by_cases hij : i = j
    · subst hij
      simp only [List.getElem?_set_self hlt, Option.some.injEq] at hj
      exact .inl hj.symm
    · rw [List.getElem?_set_ne hij] at hj
      refine .inr ⟨List.mem_of_getElem? hj, ?_⟩
      rintro rfl
      have := (hi.placed p hm).nonempty
      exact hij (hi.sorted.unique h.index hj (by omega) (by omega))
  have hold {p : Mapping} (hp : p ∈ s.mappings) {t : TransformId}
      (ht : p.lazyFileTransform = some t) : t ≠ s.transformCount ∧
        s'.transforms t = s.transforms t := by
    have := ((hi.shaped p hp).lazyTransform t ht).1
    refine ⟨Nat.ne_of_lt this, ?_⟩
    rw [h.space]
    exact Function.update_of_ne (Nat.ne_of_lt this) _ _
  refine ⟨?_, ?_, ?_, ?_, ?_⟩
  · simp [lazyRegion, hnew]
  · intro p hp a h1 h2 ha
    rcases hmem hp with rfl | ⟨hp, hne⟩
    · exact ⟨hfile, rfl⟩
    · obtain ⟨hlow, hhigh⟩ := ha
      obtain ⟨j, hj⟩ := List.getElem?_of_mem hp
      simp only [lazyRegion] at hlow hhigh
      obtain rfl := hi.sorted.unique hj h.index (by omega) (by omega)
      exact absurd (by simpa [h.index] using hj.symm) hne
  · intro p hp hf
    rcases hmem hp with rfl | ⟨hp, -⟩
    · exact rfl
    · exact hi.shift p hp m hm file hf hfile
  · intro p hp ht
    rcases hmem hp with rfl | ⟨hp, -⟩
    · exact hfile
    · exact absurd rfl (hold hp ht).1
  · intro p hp u hu hne hf o ho
    rcases hmem hp with rfl | ⟨hp, hpm⟩
    · exact absurd (by simpa [lazyRegion] using hu.symm) hne
    · rw [(hold hp hu).2]
      exact hfree p hp hpm (hf.trans hfile.symm) u hu o ho

/-- A transform that was just installed. -/
theorem Installed.tracks {i pageSize : Nat} {transform : PageTransform} {file : FileId}
    (h : Installed s i pageSize m transform s') (hi : Inv s) (hfile : m.fileBytes = some file)
    (hfree : Untransformed s m)
    (hlocal : WorksByPage transform pageSize m.size (s.contents m)) :
    Tracks (s.lazyRegion m file pageSize transform)
      (fun a => transformedImage transform m.size (s.contents m) (m.size / pageSize) (a - m.base))
      s' := by
  refine ⟨h.placement hi hfile hfree, fun o ho => .inr ⟨?_, ?_, ?_⟩⟩
  · rw [h.space]
    simp [lazyRegion]
  · rw [h.space]
    simp [lazyRegion, contents, hfile]
  · have ho' : o < m.size := ho
    have hpage : o / pageSize < m.size / pageSize := by
      rw [Nat.div_lt_iff_lt_mul h.pages, Nat.div_mul_cancel (Nat.dvd_of_mod_eq_zero h.geometry)]
      exact ho'
    simp only [lazyRegion, Nat.add_sub_cancel_left, LazyRegion.transformed]
    rw [transformedImage_eq hlocal _ ho', if_pos hpage]

section

variable (hlocal : WorksByPage r.transform r.pageSize r.size r.original)
  (hclean : FailsCleanly r.transform r.pageSize r.size r.original)

include hlocal hclean

/-- One use. -/
theorem Tracks.after (h : Tracks r expected s) (hi : Inv s) (hb : Backed s) {call : Call}
    (huse : call.isUse = true) : Tracks r (call.overlay s expected) (s.after call) := by
  have hread {α : Type} {x : Access α} {R : α → AddressSpace → Prop} (hx : ReadSpec s x R) :
      Tracks r expected (ignore x s).2 :=
    Post.final (Post.bind (Post.mono hx (fun _ _ h' => Post.pure (h.touches hlocal hclean h'.1))
      fun _ _ h' => h.touches hlocal hclean h'.1))
  have hwrite (address : Nat) (data : List Byte) :
      Tracks r (match (writeBytes address data s).1 with
        | .ok _ => overwrite expected address data
        | .error _ => expected) (writeBytes address data s).2 := by
    have := (followsWrites_tracks hlocal hclean).writeBytes h hi hb address data
    unfold Post at this
    split at this <;> next hx => simpa only [hx] using this
  cases call with
  | readBytes address size => exact hread (readFrom_spec _ _ _ hi)
  | readWord address size => exact hread (readWord_spec hi _ _)
  | validateAccess address size required =>
    exact Post.final (Post.mono (validateFrom_spec required _ _ _ hi)
      (fun _ _ h' => h.touches hlocal hclean h'.1) fun _ _ h' => h.touches hlocal hclean h'.1)
  | directMemoryView address required => exact hread (directMemoryView_spec hi _ _)
  | executableBytes address => exact hread (executableBytes_spec hi _)
  | writeBytes address data =>
    have := hwrite address.toNat data
    unfold Call.overlay AddressSpace.after
    simp only [Call.run]
    split at this <;> next hx => simpa only [hx] using this
  | writeWord address size value =>
    have := hwrite address.toNat (wordBytes size value)
    unfold Call.overlay AddressSpace.after
    simp only [Call.run, writeWord]
    split at this <;> next hx => simpa only [hx] using this
  | protect address size permissions makePrivateCopy =>
    refine Post.final (Post.bind (Post.mono (protect_spec address.toNat size.toNat _ _) ?_
      fun _ _ h' => h'.elim))
    rintro _ s' (rfl | ⟨start, limit, flag, hp⟩)
    · exact Post.pure h
    · refine Post.pure ?_
      rw [hp.space]
      exact h.flatMap fun a ha p hp' => ((hp.pieces hi ha).1 p hp').1
  | deallocate address size =>
    refine Post.final (Post.bind (Post.mono (deallocate_spec hi address.toNat size.toNat) ?_
      fun _ _ h' => h'.elim))
    rintro _ s' (⟨rfl, -⟩ | ⟨-, start, limit, flag, hd⟩)
    · exact Post.pure h
    · refine Post.pure ?_
      rw [hd.space]
      exact h.flatMap fun a ha p hp' => ((hd.pieces hi ha).1 p hp').1
  | _ => simp [Call.isUse] at huse

/-- A sequence of uses. -/
theorem Tracks.afterAll : ∀ (uses : List Call) {s : AddressSpace} {expected : Nat → Byte},
    Inv s → Backed s → Tracks r expected s → (∀ call ∈ uses, call.isUse = true) →
    Along (fun s call => call.SparesReservations s) s uses →
    Inv (s.afterAll uses) ∧ Tracks r (overlaid s uses expected) (s.afterAll uses)
  | [], _, _, hi, _, h, _, _ => ⟨hi, h⟩
  | call :: uses, s, expected, hi, hb, h, huses, hspare => by
    have he := (after_effect hi hb call).1
    exact Tracks.afterAll uses (he.inv hi) (he.backed hi hb hspare.1)
      (h.after hlocal hclean hi hb (huses call List.mem_cons_self))
      (fun c hc => huses c (List.mem_cons_of_mem _ hc)) hspare.2

theorem Tracks.returned (h : Tracks r expected s) (hi : Inv s) {address : Nat} {bytes : List Byte}
    (hr : Returned s address bytes) : Shows r expected address bytes := by
  have key {x : Access (List Byte)} (hx : ReadSpec s x fun bytes _ => Shows r expected address bytes)
      (hok : (x s).1 = .ok bytes) : Shows r expected address bytes := by
    unfold ReadSpec Post at hx
    split at hx
    · next a s' he =>
      obtain rfl : a = bytes := by simpa [he] using hok
      exact hx.2
    · next e s' he => simp [he] at hok
  cases hr with
  | readBytes hok => exact key (readFrom_shows hlocal hclean _ _ _ hi h) hok
  | readWord hok => exact key (readWord_shows hlocal hclean h hi _ _) hok
  | executableBytes hok => exact key (executableBytes_shows hlocal hclean h hi _) hok

end

/-- The transform was installed on the mapping that starts at the address. -/
theorem installLazyFilePageTransform_installed (hi : Inv s) {base pageSize : BitVec 64}
    {transform : PageTransform} (hm : m ∈ s.mappings) (hbase : m.base = base.toNat)
    (hok : ((Call.installLazyFilePageTransform base pageSize (some transform)).run s).1 = .ok ()) :
    Installed s (lowerBound s.mappings base.toNat) pageSize.toNat m transform
      (s.after (.installLazyFilePageTransform base pageSize (some transform))) := by
  have h := installLazyFilePageTransform_spec (s := s) base.toNat pageSize.toNat (some transform)
  unfold Post at h
  split at h
  · next s' hx =>
    obtain ⟨f, a, hf, ha, hab, h⟩ := h
    obtain rfl : transform = f := by simpa using hf
    obtain ⟨j, hj⟩ := List.getElem?_of_mem hm
    have := (hi.placed m hm).nonempty
    have := (hi.placed a (List.mem_of_getElem? ha)).nonempty
    obtain rfl := hi.sorted.unique hj ha (by omega) (by omega)
    obtain rfl : m = a := by simpa [hj] using ha
    have hafter : s.after (.installLazyFilePageTransform base pageSize (some transform)) = s' := by
      simp only [AddressSpace.after, Call.run, hx]
    rwa [hafter]
  · next e s' hx => simp [Call.run, hx] at hok

/-- A run : some calls, a transform installed on a mapping, and uses. -/
structure TransformRun where
  setup : List Call
  base : BitVec 64
  pageSize : BitVec 64
  transform : PageTransform
  uses : List Call

namespace TransformRun

variable (run : TransformRun)

/-- The call that installs the transform. -/
def install : Call := .installLazyFilePageTransform run.base run.pageSize (some run.transform)

/-- The space before the transform is installed. -/
def before : AddressSpace := afterAll {} run.setup

/-- The space the uses start from. -/
def installed : AddressSpace := run.before.after run.install

/-- The space after the uses. -/
def final : AddressSpace := run.installed.afterAll run.uses

/-- The bytes the mapping should show after the uses : the file with every page
transformed, and what the guest stored since. -/
def image (m : Mapping) : Nat → Byte :=
  overlaid run.installed run.uses fun a =>
    transformedImage run.transform m.size (run.before.contents m) (m.size / run.pageSize.toNat)
      (a - m.base)

/-- The transform was installed on the file mapping, which is then used only. -/
structure InstalledOn (m : Mapping) : Prop where
  mapped : m ∈ run.before.mappings ∧ m.base = run.base.toNat ∧ m.fileBytes.isSome = true
  returned : (run.install.run run.before).1 = .ok ()
  used : ∀ call ∈ run.uses, call.isUse = true

/-- What an access returns of the mapping is what it should show, and no byte of it is on a
page the transform of which throws. -/
def TransformsOnce (m : Mapping) : Prop :=
  ∀ address bytes, Returned run.final address bytes → ∀ k < bytes.length,
    m.base ≤ address + k → address + k < m.base + m.size →
    bytes[k]? = some (run.image m (address + k)) ∧
      (run.transform m.size (run.before.contents m)
        ((address + k - m.base) / run.pageSize.toNat)).2 = none

end TransformRun

/-- In every run in which the callback works page by page and changes nothing when it
throws, every byte that is returned is the transformed one or the one stored last. -/
theorem transformsOnce_of_failsCleanly (run : TransformRun) (m : Mapping)
    (hm : run.InstalledOn m) (hfree : run.before.Untransformed m)
    (hlocal : WorksByPage run.transform run.pageSize.toNat m.size (run.before.contents m))
    (hclean : FailsCleanly run.transform run.pageSize.toNat m.size (run.before.contents m))
    (hspare : Along (fun s call => call.SparesReservations s) {}
      (run.setup ++ run.install :: run.uses)) : run.TransformsOnce m := by
  obtain ⟨hmem, hbase, hfile⟩ := hm.mapped
  obtain ⟨file, hfile⟩ := Option.isSome_iff_exists.mp hfile
  obtain ⟨hbefore, -, huses⟩ := hspare.append
  obtain ⟨hi, hb⟩ := reachable hbefore
  change Along _ run.installed run.uses at huses
  have heffect := (after_effect hi hb run.install).1
  have hinstall := installLazyFilePageTransform_installed hi hmem hbase hm.returned
  have htracks := hinstall.tracks hi hfile hfree hlocal
  obtain ⟨hi', htracks'⟩ := Tracks.afterAll hlocal hclean run.uses (heffect.inv hi)
    (hinstall.backed hb) htracks hm.used huses
  intro address bytes hr k hk h1 h2
  exact htracks'.returned hlocal hclean hi' hr k hk ⟨h1, h2⟩

end AddressSpace

end Rosa
