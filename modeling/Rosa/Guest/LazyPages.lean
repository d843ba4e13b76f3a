import Rosa.Guest.Calls

/-!
# Lazy file pages

A file mapping may be transformed page by page when it is first used, and slices of one
mapping share the pages. `LazyInv` says how the transforms of a space lie in their files,
and `shownByte` is the byte a mapping shows, whether its page was transformed or not. As
long as the callback works on its page alone, neither a transform of a page nor a store
elsewhere changes what a mapping shows.
-/

namespace Rosa

/-! ## Page-local transforms -/

/-- The callback works on its page alone : it changes no other byte, what it does and
whether it throws depend on no other byte, and if it throws the page is as it was. -/
structure PageLocal (transform : PageTransform) (pageSize size : Nat) : Prop where
  outside : ∀ bytes page i, i / pageSize ≠ page → (transform size bytes page).1 i = bytes i
  throwing : ∀ bytes page, (transform size bytes page).2.isSome = true →
    ∀ i < size, (transform size bytes page).1 i = bytes i
  depends : ∀ bytes bytes' page, (∀ i < size, i / pageSize = page → bytes i = bytes' i) →
    (transform size bytes page).2 = (transform size bytes' page).2 ∧
      ∀ i < size, i / pageSize = page →
        (transform size bytes page).1 i = (transform size bytes' page).1 i

namespace LazyFilePageTransform

/-- The byte of the file is in the region of the transform. -/
def Covers (t : LazyFilePageTransform) (j : Nat) : Prop :=
  t.dataOffset ≤ j ∧ j < t.dataOffset + t.size

/-- The page of a byte of the region. -/
def filePage (t : LazyFilePageTransform) (j : Nat) : Nat := (j - t.dataOffset) / t.pageSize

end LazyFilePageTransform

namespace AddressSpace

open Rosa.Computation

section

variable {t : LazyFilePageTransform} {data data' : Nat → Byte} {page j : Nat}

theorem transformPage_outside (ht : PageLocal t.transform t.pageSize t.size)
    (hj : t.Covers j → t.filePage j ≠ page) : (transformPage t data page).1 j = data j := by
  simp only [transformPage]
  split
  · next h =>
    simp only [Bool.and_eq_true, decide_eq_true_eq] at h
    rw [ht.outside _ _ _ (hj h)]
    congr 1
    omega
  · rfl

theorem transformPage_throwing (ht : PageLocal t.transform t.pageSize t.size)
    (hthrow : (transformPage t data page).2.isSome = true) : (transformPage t data page).1 j = data j := by
  simp only [transformPage] at hthrow ⊢
  split
  · next h =>
    simp only [Bool.and_eq_true, decide_eq_true_eq] at h
    rw [ht.throwing _ _ hthrow _ (by omega)]
    congr 1
    omega
  · rfl

theorem transformPage_depends (ht : PageLocal t.transform t.pageSize t.size)
    (h : ∀ j, t.Covers j → t.filePage j = page → data j = data' j) :
    (transformPage t data page).2 = (transformPage t data' page).2 ∧
      ∀ j, t.Covers j → t.filePage j = page →
        (transformPage t data page).1 j = (transformPage t data' page).1 j := by
  have hspan (i : Nat) (hi : i < t.size) (hp : i / t.pageSize = page) :
      data (t.dataOffset + i) = data' (t.dataOffset + i) := by
    refine h _ ⟨by omega, by omega⟩ ?_
    rw [LazyFilePageTransform.filePage, Nat.add_sub_cancel_left, hp]
  obtain ⟨h1, h2⟩ := ht.depends _ _ page hspan
  refine ⟨h1, fun j hj hp => ?_⟩
  have hj' : (decide (t.dataOffset ≤ j) && decide (j < t.dataOffset + t.size)) = true := by
    simp only [Bool.and_eq_true, decide_eq_true_eq]
    exact hj
  simp only [transformPage, hj', if_true]
  exact h2 _ (by have := hj.1; have := hj.2; omega) hp

end

/-! ## The lazy transforms of a space -/

/-- How the lazy transforms of a space lie in their files. -/
structure LazyInv (s : AddressSpace) : Prop where
  pageLocal : ∀ m ∈ s.mappings, ∀ t, m.lazyFileTransform = some t →
    PageLocal (s.transforms t).transform (s.transforms t).pageSize (s.transforms t).size
  sameFile : ∀ a ∈ s.mappings, ∀ b ∈ s.mappings, ∀ t, a.lazyFileTransform = some t →
    b.lazyFileTransform = some t → a.fileBytes = b.fileBytes
  covering : ∀ a ∈ s.mappings, ∀ b ∈ s.mappings, ∀ t, a.lazyFileTransform = some t →
    a.fileBytes = b.fileBytes → ∀ o < b.size, (s.transforms t).Covers (b.fileDataOffset + o) →
    b.lazyFileTransform = some t
  separate : ∀ a ∈ s.mappings, ∀ b ∈ s.mappings, ∀ t u, a.lazyFileTransform = some t →
    b.lazyFileTransform = some u → t ≠ u → a.fileBytes = b.fileBytes → ∀ j,
    (s.transforms t).Covers j → ¬(s.transforms u).Covers j

/-- The first use of the page of a file's byte will throw. -/
def fails (t : LazyFilePageTransform) (data : Nat → Byte) (j : Nat) : Bool :=
  !t.transformedPages (t.filePage j) && (transformPage t data (t.filePage j)).2.isSome

/-- The byte of a file under a lazy transform : the one that is there, or the one the
transform will put there. -/
def shown (t : LazyFilePageTransform) (data : Nat → Byte) (j : Nat) : Byte :=
  bif t.transformedPages (t.filePage j) then data j
  else (transformPage t data (t.filePage j)).1 j

/-- The first use of a byte of a mapping will throw. -/
def pageFails (s : AddressSpace) (m : Mapping) (offset : Nat) : Bool :=
  match m.fileBytes, m.lazyFileTransform with
  | some f, some t => fails (s.transforms t) (s.files f).data (m.fileDataOffset + offset)
  | _, _ => false

/-- The byte a mapping shows. -/
def shownByte (s : AddressSpace) (m : Mapping) (offset : Nat) : Byte :=
  match m.fileBytes, m.lazyFileTransform with
  | some f, some t => shown (s.transforms t) (s.files f).data (m.fileDataOffset + offset)
  | _, _ => s.contents m offset

/-- The mapping shows the same bytes in two spaces. -/
def SameBytes (s s' : AddressSpace) (m : Mapping) : Prop :=
  ∀ o < m.size, s'.pageFails m o = s.pageFails m o ∧ s'.shownByte m o = s.shownByte m o

variable {s s' : AddressSpace} {m m0 : Mapping}

theorem SameBytes.refl (s : AddressSpace) (m : Mapping) : SameBytes s s m := fun _ _ => ⟨rfl, rfl⟩

theorem SameBytes.trans {s'' : AddressSpace} (h : SameBytes s s' m) (h' : SameBytes s' s'' m) :
    SameBytes s s'' m := fun o ho =>
  ⟨(h' o ho).1.trans (h o ho).1, (h' o ho).2.trans (h o ho).2⟩

/-- The bytes of a mapping depend on its file and its transform only. -/
theorem SameBytes.of_eq (hf : ∀ f, m.fileBytes = some f → s'.files f = s.files f)
    (ht : ∀ t, m.lazyFileTransform = some t → s'.transforms t = s.transforms t) :
    SameBytes s s' m := by
  intro o _
  unfold pageFails shownByte contents
  cases hfile : m.fileBytes with
  | none => simp
  | some f =>
    cases hlazy : m.lazyFileTransform with
    | none => simp [hf f hfile]
    | some t => simp [hf f hfile, ht t hlazy]

/-- A change of the file outside the byte and its page is not seen. -/
theorem shown_congr {t : LazyFilePageTransform} {data data' : Nat → Byte} {j : Nat}
    (ht : PageLocal t.transform t.pageSize t.size) (hj : t.Covers j) (hown : data' j = data j)
    (hpage : t.transformedPages (t.filePage j) = false → ∀ k, t.Covers k →
      t.filePage k = t.filePage j → data' k = data k) :
    fails t data' j = fails t data j ∧ shown t data' j = shown t data j := by
  unfold fails shown
  cases hp : t.transformedPages (t.filePage j) with
  | true => exact ⟨rfl, hown⟩
  | false =>
    obtain ⟨h1, h2⟩ := transformPage_depends ht (hpage hp)
    exact ⟨by rw [h1], h2 j hj rfl⟩

/-- Changes of the file outside the bytes a mapping depends on are not seen. -/
theorem SameBytes.of_data (hi : Inv s) (hl : LazyInv s) (hm : m ∈ s.mappings) {f : FileId}
    (hfile : m.fileBytes = some f)
    (htransforms : ∀ t, m.lazyFileTransform = some t → s'.transforms t = s.transforms t)
    (hown : ∀ o < m.size,
      (s'.files f).data (m.fileDataOffset + o) = (s.files f).data (m.fileDataOffset + o))
    (hpages : ∀ t, m.lazyFileTransform = some t → ∀ j, (s.transforms t).Covers j →
      (s.transforms t).transformedPages ((s.transforms t).filePage j) = false →
      (s'.files f).data j = (s.files f).data j) : SameBytes s s' m := by
  intro o ho
  unfold pageFails shownByte contents
  cases hlazy : m.lazyFileTransform with
  | none => simp [hfile, hown o ho]
  | some t =>
    obtain ⟨-, -, hlow, hhigh, -⟩ := (hi.shaped m hm).lazyTransform t hlazy
    simp only [hfile, htransforms t hlazy]
    exact shown_congr (hl.pageLocal m hm t hlazy) ⟨by omega, by omega⟩ (hown o ho)
      fun hp k hk hkp => hpages t hlazy k hk (by rw [hkp]; exact hp)

theorem overwrite_of_not_mem {contents : Nat → Byte} {offset j : Nat} {bytes : List Byte}
    (h : ∀ k < bytes.length, j ≠ offset + k) : overwrite contents offset bytes j = contents j := by
  unfold overwrite
  split
  · next hle =>
    have : bytes.length ≤ j - offset := by
      by_contra hlt
      exact h (j - offset) (by omega) (by omega)
    rw [List.getElem?_eq_none this]
    rfl
  · rfl

/-- The lookup of two mappings of a space : the same or disjoint in their file. -/
theorem Inv.file_disjoint (hi : Inv s) (hm : m ∈ s.mappings) (hm0 : m0 ∈ s.mappings)
    (hne : m ≠ m0) {f : FileId} (hf : m.fileBytes = some f) (hf0 : m0.fileBytes = some f)
    {o k : Nat} (ho : o < m.size) (hk : k < m0.size) :
    m.fileDataOffset + o ≠ m0.fileDataOffset + k := by
  intro he
  have hshift := hi.shift m hm m0 hm0 f hf hf0
  obtain ⟨i, hi'⟩ := List.getElem?_of_mem hm
  obtain ⟨j, hj⟩ := List.getElem?_of_mem hm0
  obtain rfl := hi.sorted.unique hi' hj (by omega) (by omega)
  exact hne (by simpa [hi'] using hj)

/-- The mappings of a space are all different, so one that is replaced is gone. -/
theorem not_mem_set_of_sorted (hi : Inv s) {i : Nat} {a : Mapping} (hm : s.mappings[i]? = some m)
    (hne : a ≠ m) : m ∉ s.mappings.set i a := by
  intro h
  obtain ⟨j, hj⟩ := List.getElem?_of_mem h
  by_cases hij : i = j
  · subst hij
    obtain ⟨hlt, -⟩ := List.getElem?_eq_some_iff.mp hm
    simp only [List.getElem?_set_self hlt, Option.some.injEq] at hj
    exact hne hj
  · rw [List.getElem?_set_ne hij] at hj
    have := (hi.placed m (List.mem_of_getElem? hm)).nonempty
    exact hij (hi.sorted.unique hm hj (by omega) (by omega))

theorem pageOf_eq_filePage (t : LazyFilePageTransform) (m : Mapping) (o : Nat) :
    t.pageOf m o = t.filePage (m.fileDataOffset + o) := rfl

/-- Marking pages does not change what the callback does. -/
theorem transformPage_mark (t : LazyFilePageTransform) (pages : Nat → Bool) (data : Nat → Byte)
    (page : Nat) : transformPage { t with transformedPages := pages } data page =
      transformPage t data page := rfl

/-- A page shows the same bytes before and after its transform did not throw. -/
theorem shown_mark {t : LazyFilePageTransform} (data : Nat → Byte) {j page : Nat}
    (ht : PageLocal t.transform t.pageSize t.size) (hj : t.Covers j)
    (hnew : t.transformedPages page = false)
    (hok : (transformPage t data page).2.isSome = false) :
    fails { t with transformedPages := Function.update t.transformedPages page true }
        (transformPage t data page).1 j = fails t data j ∧
      shown { t with transformedPages := Function.update t.transformedPages page true }
        (transformPage t data page).1 j = shown t data j := by
  by_cases hq : t.filePage j = page
  · have hq' : LazyFilePageTransform.filePage
        { t with transformedPages := Function.update t.transformedPages page true } j = page := hq
    simp [fails, shown, hq, hq', hnew, hok]
  · have hkeep : Function.update t.transformedPages page true (t.filePage j) =
        t.transformedPages (t.filePage j) := Function.update_of_ne hq _ _
    have hown : (transformPage t data page).1 j = data j :=
      transformPage_outside ht fun _ => hq
    have hdata := shown_congr ht hj hown
      fun _ k _ hk => transformPage_outside ht fun _ => by rw [hk]; exact hq
    rw [← hdata.1, ← hdata.2]
    simp only [fails, shown, transformPage_mark, LazyFilePageTransform.filePage] at hkeep ⊢
    simp only [hkeep, and_self]

/-- A mapping shows the same bytes before and after its own transform worked on a page. -/
theorem sameBytes_applyTransform_self (hi : Inv s) (hl : LazyInv s) (hm : m ∈ s.mappings)
    {f : FileId} {t : TransformId} {page : Nat} (hfile : m.fileBytes = some f)
    (hlazy : m.lazyFileTransform = some t)
    (hnew : (s.transforms t).transformedPages page = false) :
    SameBytes s (applyTransform f t page s) m := by
  have hlocal := hl.pageLocal m hm t hlazy
  obtain ⟨-, -, hlow, hhigh, -⟩ := (hi.shaped m hm).lazyTransform t hlazy
  cases hthrow : (transformPage (s.transforms t) (s.files f).data page).2.isSome with
  | true =>
    have hdata (j : Nat) : ((applyTransform f t page s).files f).data j = (s.files f).data j := by
      simp only [applyTransform, Function.update_self]
      exact transformPage_throwing hlocal hthrow
    refine .of_data hi hl hm hfile (fun _ _ => ?_) (fun o _ => hdata _) fun _ _ j _ _ => hdata j
    simp [applyTransform, hthrow]
  | false =>
    intro o ho
    have hcovers : (s.transforms t).Covers (m.fileDataOffset + o) := ⟨by omega, by omega⟩
    have := shown_mark (s.files f).data hlocal hcovers hnew hthrow
    simpa only [pageFails, shownByte, hfile, hlazy, applyTransform, hthrow, Bool.false_eq_true,
      if_false, Function.update_self] using this

theorem sameBytes_applyTransform (hi : Inv s) (hl : LazyInv s) (hm : m ∈ s.mappings)
    (hm0 : m0 ∈ s.mappings) {f : FileId} {t : TransformId} {page : Nat}
    (hfile0 : m0.fileBytes = some f) (hlazy0 : m0.lazyFileTransform = some t)
    (hnew : (s.transforms t).transformedPages page = false) :
    SameBytes s (applyTransform f t page s) m := by
  have hother {u : TransformId} (hu : u ≠ t) :
      (applyTransform f t page s).transforms u = s.transforms u := by
    simp only [applyTransform]
    split
    · rfl
    · exact Function.update_of_ne hu _ _
  by_cases hlazy : m.lazyFileTransform = some t
  · have hfile : m.fileBytes = some f := (hl.sameFile m hm m0 hm0 t hlazy hlazy0).trans hfile0
    exact sameBytes_applyTransform_self hi hl hm hfile hlazy hnew
  · have hne {u : TransformId} (hu : m.lazyFileTransform = some u) : u ≠ t := by
      rintro rfl
      exact hlazy hu
    by_cases hfile : m.fileBytes = some f
    · have hlocal := hl.pageLocal m0 hm0 t hlazy0
      have hout {j : Nat} (hj : ¬(s.transforms t).Covers j) :
          ((applyTransform f t page s).files f).data j = (s.files f).data j := by
        simp only [applyTransform, Function.update_self]
        exact transformPage_outside hlocal fun h => absurd h hj
      have hsame : m0.fileBytes = m.fileBytes := hfile0.trans hfile.symm
      refine .of_data hi hl hm hfile (fun u hu => hother (hne hu)) (fun o ho => hout fun hc => ?_)
        fun u hu j hj _ => hout ?_
      · exact hlazy (hl.covering m0 hm0 m hm t hlazy0 hsame o ho hc)
      · exact hl.separate m hm m0 hm0 u t hu hlazy0 (hne hu) hsame.symm j hj
    · refine .of_eq (fun g hg => ?_) fun u hu => hother (hne hu)
      have : g ≠ f := by
        rintro rfl
        exact hfile hg
      simp [applyTransform, this]

theorem sameBytes_storeBytes (hi : Inv s) (hl : LazyInv s) (hm : m ∈ s.mappings) {i offset : Nat}
    {bytes : List Byte} (hm0 : s.mappings[i]? = some m0) (hne : m ≠ m0)
    (hfits : offset + bytes.length ≤ m0.size) (hready : ∀ k < bytes.length, s.Ready m0 (offset + k)) :
    m ∈ (storeBytes i m0 offset bytes s).mappings ∧
      SameBytes s (storeBytes i m0 offset bytes s) m := by
  have hmem0 := List.mem_of_getElem? hm0
  unfold storeBytes
  split
  · next f hfile0 =>
    refine ⟨hm, ?_⟩
    by_cases hfile : m.fileBytes = some f
    · refine .of_data hi hl hm hfile (fun _ _ => rfl) (fun o ho => ?_) fun t ht j hj hp => ?_
      · simp only [Function.update_self]
        refine overwrite_of_not_mem fun k hk => ?_
        rw [Nat.add_assoc]
        exact hi.file_disjoint hm hmem0 hne hfile hfile0 ho (by omega)
      · simp only [Function.update_self]
        refine overwrite_of_not_mem fun k hk he => ?_
        -- the stored byte would be on a page of the transform, which is ready
        have hcover : (s.transforms t).Covers (m0.fileDataOffset + (offset + k)) := by
          rw [← Nat.add_assoc, ← he]
          exact hj
        have hlazy0 := hl.covering m hm m0 hmem0 t ht (hfile.trans hfile0.symm) (offset + k)
          (by omega) hcover
        have := hready k hk t hlazy0
        rw [pageOf_eq_filePage, ← Nat.add_assoc, ← he, hp] at this
        cases this
    · refine .of_eq (fun g hg => ?_) fun _ _ => rfl
      have : g ≠ f := by
        rintro rfl
        exact hfile hg
      simp [this]
  · refine ⟨?_, .of_eq (fun _ _ => rfl) fun _ _ => rfl⟩
    obtain ⟨j, hj⟩ := List.getElem?_of_mem hm
    have hij : i ≠ j := by
      rintro rfl
      exact hne (by simpa [hj] using hm0)
    exact List.mem_of_getElem? (i := j) (by simp [hij, hj])

/-- A mapping that shares the file and the transform of a mapping of `s`, at the same
bytes of the file. -/
structure FromSource (s : AddressSpace) (m p : Mapping) : Prop where
  mem : m ∈ s.mappings
  fileBytes : p.fileBytes = m.fileBytes
  lazyFileTransform : p.lazyFileTransform = m.lazyFileTransform
  bytes : ∀ o < p.size, ∃ o' < m.size, p.fileDataOffset + o = m.fileDataOffset + o'

/-- A mapping that shares no file with a mapping under a lazy transform. -/
structure Unshared (s : AddressSpace) (p : Mapping) : Prop where
  lazyFileTransform : p.lazyFileTransform = none
  fileBytes : ∀ m ∈ s.mappings, m.lazyFileTransform.isSome = true → m.fileBytes ≠ p.fileBytes

/-- The invariant is about where the transforms lie in the files only. -/
theorem LazyInv.of_sources (h : LazyInv s)
    (hmem : ∀ p ∈ s'.mappings, (∃ m, FromSource s m p) ∨ Unshared s p)
    (htransforms : ∀ m ∈ s.mappings, ∀ t, m.lazyFileTransform = some t →
      (s.transforms t).SameShape (s'.transforms t)) : LazyInv s' := by
  have hcovers {m : Mapping} (hm : m ∈ s.mappings) {t : TransformId}
      (ht : m.lazyFileTransform = some t) {j : Nat} :
      (s'.transforms t).Covers j ↔ (s.transforms t).Covers j := by
    obtain ⟨h1, h2, -⟩ := htransforms m hm t ht
    rw [LazyFilePageTransform.Covers, LazyFilePageTransform.Covers, h1, h2]
  -- a mapping under a transform has a source
  have hsource {p : Mapping} (hp : p ∈ s'.mappings) {t : TransformId}
      (ht : p.lazyFileTransform = some t) :
      ∃ m, FromSource s m p ∧ m.lazyFileTransform = some t := by
    rcases hmem p hp with ⟨m, hm⟩ | hu
    · exact ⟨m, hm, hm.lazyFileTransform ▸ ht⟩
    · simp [hu.lazyFileTransform] at ht
  refine ⟨?_, ?_, ?_, ?_⟩
  · intro p hp t ht
    obtain ⟨m, hm, htm⟩ := hsource hp ht
    obtain ⟨-, h2, h3, h4⟩ := htransforms m hm.mem t htm
    rw [h2, h3, h4]
    exact h.pageLocal m hm.mem t htm
  · intro a ha b hb t hta htb
    obtain ⟨a', ha', hta'⟩ := hsource ha hta
    obtain ⟨b', hb', htb'⟩ := hsource hb htb
    rw [ha'.fileBytes, hb'.fileBytes]
    exact h.sameFile a' ha'.mem b' hb'.mem t hta' htb'
  · intro a ha b hb t hta hf o ho hc
    obtain ⟨a', ha', hta'⟩ := hsource ha hta
    rw [hcovers ha'.mem hta'] at hc
    rcases hmem b hb with ⟨b', hb'⟩ | hu
    · obtain ⟨o', ho', he⟩ := hb'.bytes o ho
      rw [hb'.lazyFileTransform]
      rw [ha'.fileBytes, hb'.fileBytes] at hf
      rw [he] at hc
      exact h.covering a' ha'.mem b' hb'.mem t hta' hf o' ho' hc
    · exact absurd (ha'.fileBytes ▸ hf) (hu.fileBytes a' ha'.mem (by simp [hta']))
  · intro a ha b hb t u hta hub hne hf j hj
    obtain ⟨a', ha', hta'⟩ := hsource ha hta
    obtain ⟨b', hb', hub'⟩ := hsource hb hub
    rw [ha'.fileBytes, hb'.fileBytes] at hf
    rw [hcovers ha'.mem hta'] at hj
    rw [hcovers hb'.mem hub']
    exact h.separate a' ha'.mem b' hb'.mem t u hta' hub' hne hf j hj

theorem FromSource.refl (hm : m ∈ s.mappings) : FromSource s m m :=
  ⟨hm, rfl, rfl, fun o ho => ⟨o, ho, rfl⟩⟩

theorem LazyInv.of_sameShape (h : LazyInv s) (hs : SameShape s s') : LazyInv s' := by
  refine h.of_sources (fun p hp => ?_) fun _ _ t _ => hs.transforms t
  obtain ⟨m, hm, he⟩ := hs.mem hp
  refine .inl ⟨m, hm, he.fileBytes, he.lazyFileTransform, fun o ho => ⟨o, he.size ▸ ho, ?_⟩⟩
  rw [he.fileDataOffset]

theorem LazyInv.bump {flag : Bool} (h : LazyInv s) :
    LazyInv (bumped flag s) :=
  ⟨h.pageLocal, h.sameFile, h.covering, h.separate⟩

theorem IsSlice.fromSource {p : Mapping} (h : IsSlice m p) (hm : m ∈ s.mappings) :
    FromSource s m p := by
  refine ⟨hm, h.fileBytes, h.lazyFileTransform, fun o ho => ⟨p.base - m.base + o, ?_, ?_⟩⟩
  all_goals
    have := h.base
    have := h.limit
    have := h.shift
    omega

theorem Added.lazyInv (h : Added s m s') (hi : Inv s) (hl : LazyInv s) : LazyInv s' := by
  refine hl.of_sources (fun p hp => ?_) fun _ _ t _ => ?_
  · rcases h.mem.mp hp with rfl | hp
    · refine .inr ⟨h.notLazy, fun a ha ht he => ?_⟩
      obtain ⟨t, ht⟩ := Option.isSome_iff_exists.mp ht
      obtain ⟨-, -, -, -, f, hf, -⟩ := (hi.shaped a ha).lazyTransform t ht
      have := ((hi.shaped a ha).file f hf).1
      rcases h.space with ⟨hnone, -⟩ | ⟨hsome, -⟩
      · simp [hf, hnone] at he
      · obtain rfl : f = s.fileCount := by simpa [hf, hsome] using he
        exact absurd this (lt_irrefl _)
    · exact .inl ⟨p, .refl hp⟩
  · rcases h.space with ⟨-, -, rfl⟩ | ⟨-, -, file, -, rfl⟩ <;> exact ⟨rfl, rfl, rfl, rfl⟩

theorem BatchAdded.lazyInv {pending : List Mapping} {flag : Bool}
    (h : BatchAdded s pending flag s') (hi : Inv s) (hl : LazyInv s) : LazyInv s' := by
  obtain ⟨rfl, -, -, hplain, -⟩ := h
  refine hl.of_sources (fun p hp => ?_) fun _ _ t _ => ⟨rfl, rfl, rfl, rfl⟩
  rcases mem_mergeMappings.mp hp with hp | hp
  · exact .inl ⟨p, .refl hp⟩
  · obtain ⟨hnone, hlazy, -⟩ := hplain p hp
    refine .inr ⟨hlazy, fun a ha ht he => ?_⟩
    obtain ⟨t, ht⟩ := Option.isSome_iff_exists.mp ht
    obtain ⟨-, -, -, -, f, hf, -⟩ := (hi.shaped a ha).lazyTransform t ht
    simp [hf, hnone] at he

theorem LazyInv.flatMap {pieces : Mapping → List Mapping} {flag : Bool} (hl : LazyInv s)
    (hslice : ∀ m ∈ s.mappings, ∀ p ∈ pieces m, IsSlice m p) :
    LazyInv (bumped flag (invalidateMappingLookup
      { s with mappings := s.mappings.flatMap pieces })) := by
  refine hl.of_sources (fun p hp => ?_) fun _ _ t _ => ⟨rfl, rfl, rfl, rfl⟩
  obtain ⟨m, hm, hp⟩ := List.mem_flatMap.mp hp
  exact .inl ⟨m, (hslice m hm p hp).fromSource hm⟩

theorem Installed.transforms_new {i pageSize : Nat} {transform : PageTransform}
    (h : Installed s i pageSize m transform s') :
    s'.transforms s.transformCount =
      ⟨m.fileDataOffset, m.size, pageSize, fun _ => false, transform⟩ := by
  rw [h.space]
  exact Function.update_self _ _ _

/-- A transform on a mapping that had none covers the bytes of that mapping only. -/
theorem Installed.lazyInv {i pageSize : Nat} {transform : PageTransform}
    (h : Installed s i pageSize m transform s') (hi : Inv s) (hl : LazyInv s)
    (hnone : m.lazyFileTransform = none) (hlocal : PageLocal transform pageSize m.size) :
    LazyInv s' := by
  have hm := List.mem_of_getElem? h.index
  have hnew := h.transforms_new
  have hold {a : Mapping} (ha : a ∈ s.mappings) {t : TransformId}
      (ht : a.lazyFileTransform = some t) :
      t ≠ s.transformCount ∧ s'.transforms t = s.transforms t := by
    have := ((hi.shaped a ha).lazyTransform t ht).1
    refine ⟨Nat.ne_of_lt this, ?_⟩
    rw [h.space]
    exact Function.update_of_ne (Nat.ne_of_lt this) _ _
  have hspan {j : Nat} (hj : (s'.transforms s.transformCount).Covers j) :
      ∃ o < m.size, j = m.fileDataOffset + o := by
    rw [hnew] at hj
    have h1 : m.fileDataOffset ≤ j := hj.1
    have h2 : j < m.fileDataOffset + m.size := hj.2
    exact ⟨j - m.fileDataOffset, by omega, by omega⟩
  -- no older transform reaches the bytes of the mapping
  have hfree {a : Mapping} (ha : a ∈ s.mappings) {t : TransformId}
      (ht : a.lazyFileTransform = some t) (hf : a.fileBytes = m.fileBytes) {o : Nat}
      (ho : o < m.size) : ¬(s.transforms t).Covers (m.fileDataOffset + o) := fun hc => by
    simpa [hnone] using hl.covering a ha m hm t ht hf o ho hc
  refine ⟨?_, ?_, ?_, ?_⟩
  · intro a ha t ht
    rcases h.mem ha with ha | rfl
    · rw [(hold ha ht).2]
      exact hl.pageLocal a ha t ht
    · obtain rfl : s.transformCount = t := by simpa using ht
      rw [hnew]
      exact hlocal
  · intro a ha b hb t hta htb
    rcases h.mem ha with ha | rfl <;> rcases h.mem hb with hb | rfl
    · exact hl.sameFile a ha b hb t hta htb
    · exact absurd (by simpa using htb.symm) (hold ha hta).1
    · exact absurd (by simpa using hta.symm) (hold hb htb).1
    · rfl
  · intro a ha b hb t hta hf o ho hc
    rcases h.mem ha with ha | rfl
    · rw [(hold ha hta).2] at hc
      rcases h.mem hb with hb | rfl
      · exact hl.covering a ha b hb t hta hf o ho hc
      · exact absurd hc (hfree ha hta hf ho)
    · obtain rfl : s.transformCount = t := by simpa using hta
      rcases h.mem hb with hb' | rfl
      · obtain ⟨k, hk, he⟩ := hspan hc
        obtain ⟨f, hfile⟩ := Option.isSome_iff_exists.mp h.file
        by_cases hbm : b = m
        · -- the mapping itself was replaced
          subst hbm
          rw [h.space] at hb
          refine absurd hb (not_mem_set_of_sorted hi h.index fun he => ?_)
          simpa [hnone] using congrArg Mapping.lazyFileTransform he
        · exact absurd he (hi.file_disjoint hb' hm hbm (hf.symm.trans hfile) hfile ho hk)
      · rfl
  · intro a ha b hb t u hta hub hne hf j hj hj'
    rcases h.mem ha with ha | rfl <;> rcases h.mem hb with hb | rfl
    · rw [(hold ha hta).2] at hj
      rw [(hold hb hub).2] at hj'
      exact hl.separate a ha b hb t u hta hub hne hf j hj hj'
    · obtain rfl : s.transformCount = u := by simpa using hub
      obtain ⟨o, ho, rfl⟩ := hspan hj'
      rw [(hold ha hta).2] at hj
      exact hfree ha hta hf ho hj
    · obtain rfl : s.transformCount = t := by simpa using hta
      obtain ⟨o, ho, rfl⟩ := hspan hj
      rw [(hold hb hub).2] at hj'
      exact hfree hb hub hf.symm ho hj'
    · exact hne (by simpa using hta.symm.trans hub)

/-- The executable mappings of two spaces are the same and show the same bytes. -/
def SameCode (s s' : AddressSpace) : Prop :=
  ∀ m, m.permissions.execute = true →
    (m ∈ s'.mappings ↔ m ∈ s.mappings) ∧ (m ∈ s.mappings → SameBytes s s' m)

theorem SameCode.refl (s : AddressSpace) : SameCode s s :=
  fun m _ => ⟨Iff.rfl, fun _ => .refl s m⟩

theorem SameCode.trans {s'' : AddressSpace} (h : SameCode s s') (h' : SameCode s' s'') :
    SameCode s s'' := fun m hx =>
  ⟨(h' m hx).1.trans (h m hx).1, fun hm => ((h m hx).2 hm).trans ((h' m hx).2 ((h m hx).1.mpr hm))⟩

/-- Files and transforms are untouched, and so are the executable mappings. -/
theorem SameCode.of_mappings (hi : Inv s) (hfiles : ∀ f < s.fileCount, s'.files f = s.files f)
    (htransforms : ∀ t < s.transformCount, s'.transforms t = s.transforms t)
    (hmem : ∀ m, m.permissions.execute = true → (m ∈ s'.mappings ↔ m ∈ s.mappings)) :
    SameCode s s' := fun m hx =>
  ⟨hmem m hx, fun hm => .of_eq (fun f hf => hfiles f ((hi.shaped m hm).file f hf).1)
    fun t ht => htransforms t ((hi.shaped m hm).lazyTransform t ht).1⟩

/-- A mapping that is not executable is replaced by one that is not. -/
theorem mem_set_of_execute {ms : List Mapping} {i : Nat} {a b : Mapping} (ha : ms[i]? = some a)
    (hax : a.permissions.execute = false) (hbx : b.permissions.execute = false)
    (hx : m.permissions.execute = true) : m ∈ ms.set i b ↔ m ∈ ms := by
  constructor
  · intro h
    rcases List.mem_or_eq_of_mem_set h with h | rfl
    · exact h
    · simp [hbx] at hx
  · intro h
    obtain ⟨j, hj⟩ := List.getElem?_of_mem h
    have hij : i ≠ j := by
      rintro rfl
      obtain rfl : a = m := by simpa [ha] using hj
      simp [hax] at hx
    exact List.mem_of_getElem? (i := j) (by simp [hij, hj])

theorem Touch.sameCode {allowed : Mapping → Prop} (hi : Inv s) (hl : LazyInv s)
    (hallowed : ∀ m, allowed m → m.permissions.execute = false) (h : Touch allowed s s') :
    SameCode s s' := by
  cases h with
  | lookup => exact .of_mappings hi (fun _ _ => rfl) (fun _ _ => rfl) fun _ _ => Iff.rfl
  | transform hm0 hf ht ho hnew =>
    exact fun m _ => ⟨Iff.rfl, fun hm => sameBytes_applyTransform hi hl hm hm0 hf ht hnew⟩
  | @store i offset m0 data hm0 ha hfits hready =>
    intro m hx
    have hne : m ≠ m0 := by
      rintro rfl
      simp [hallowed m ha] at hx
    refine ⟨?_, fun hm => (sameBytes_storeBytes hi hl hm hm0 hne hfits hready).2⟩
    unfold storeBytes
    split
    · exact Iff.rfl
    · exact mem_set_of_execute hm0 (hallowed m0 ha) (hallowed m0 ha) hx

theorem Touches.sameCode {allowed : Mapping → Prop} (hi : Inv s) (hl : LazyInv s)
    (hallowed : ∀ m, allowed m → m.permissions.execute = false) (h : Touches allowed s s') :
    SameCode s s' := by
  induction h with
  | refl => exact .refl s
  | tail hs ht ih =>
    have hs : Touches allowed s _ := hs
    exact ih.trans (ht.sameCode (hs.inv hi) (hl.of_sameShape hs.sameShape) hallowed)

end AddressSpace

end Rosa
