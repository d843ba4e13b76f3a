import Rosa.Guest.LazyPages

/-!
# The counter of executable changes

The translation cache compares two values of `executableVersion` and takes equal values
to mean equal code. `SameCode` is what has to stay for that : the executable mappings and
the bytes they show. Every call either counts or keeps it, except sparse data and lazy
transforms that are put into executable memory; neither of them looks at the permissions
of the mapping.
-/

namespace Rosa

namespace AddressSpace

open Rosa.Computation

variable {s s' : AddressSpace} {m m0 : Mapping}

/-! ## Executable bytes -/

/-- The executable bytes of a mapping from an offset on, without the lookup cache and
before any page is transformed. -/
def codeOf (s : AddressSpace) (m : Mapping) (offset : Nat) : Option (List Byte) :=
  match m.fileBytes with
  | some _ =>
    if ∀ k < m.size - offset, s.pageFails m (offset + k) = false then
      some ((List.range (m.size - offset)).map fun k => s.shownByte m (offset + k))
    else none
  | none =>
    if offset ≤ m.bytes.size then
      some (bytesAt m.bytes.get offset (m.bytes.size - offset))
    else none

theorem SameBytes.codeOf_eq (h : SameBytes s s' m) {offset : Nat} :
    codeOf s' m offset = codeOf s m offset := by
  unfold codeOf
  cases hfile : m.fileBytes with
  | none => rfl
  | some f =>
    have hb (k : Nat) (hk : k < m.size - offset) := h (offset + k) (by omega)
    have hfails : (∀ k < m.size - offset, s'.pageFails m (offset + k) = false) ↔
        ∀ k < m.size - offset, s.pageFails m (offset + k) = false :=
      forall₂_congr fun k hk => by rw [(hb k hk).1]
    have hshown : ((List.range (m.size - offset)).map fun k => s'.shownByte m (offset + k)) =
        (List.range (m.size - offset)).map fun k => s.shownByte m (offset + k) :=
      List.map_congr_left fun k hk => (hb k (List.mem_range.mp hk)).2
    simp only [hfails, hshown]

/-- The address has these executable bytes. -/
def HasCode (s : AddressSpace) (address : Nat) (bytes : List Byte) : Prop :=
  ∃ m ∈ s.mappings, m.permissions.execute = true ∧ m.base ≤ address ∧
    address < m.base + m.size ∧ codeOf s m (address - m.base) = some bytes

theorem SameCode.hasCode_iff (h : SameCode s s') {address : Nat} {bytes : List Byte} :
    HasCode s' address bytes ↔ HasCode s address bytes := by
  constructor
  · rintro ⟨m, hm, hx, h1, h2, h3⟩
    have hm' := (h m hx).1.mp hm
    exact ⟨m, hm', hx, h1, h2, ((h m hx).2 hm').codeOf_eq ▸ h3⟩
  · rintro ⟨m, hm, hx, h1, h2, h3⟩
    exact ⟨m, (h m hx).1.mpr hm, hx, h1, h2, ((h m hx).2 hm).codeOf_eq.trans h3⟩

/-- Transforming pages throws only if one of them was going to. -/
theorem materializePages_throws {file : FileId} {t : TransformId} (low : Nat) {high : Nat}
    (hfile : m.fileBytes = some file) (ht : m.lazyFileTransform = some t) (hhigh : high ≤ m.size) :
    ∀ (count page : Nat) {s : AddressSpace}, Inv s → LazyInv s → m ∈ s.mappings →
      (∀ p, page ≤ p → p < page + count →
        ∃ o, low ≤ o ∧ o < high ∧ (s.transforms t).pageOf m o = p) →
      Post (materializePages file t count page) s (fun _ _ => True)
        fun _ _ => ∃ o, low ≤ o ∧ o < high ∧ s.pageFails m o = true
  | 0, _, _, _, _, _, _ => Post.pure trivial
  | count + 1, page, s, hi, hl, hm, hpages => by
    have hrest {s' : AddressSpace} (hs : Touches nowhere s s') (hsame : SameBytes s s' m) :
        Post (materializePages file t count (page + 1)) s' (fun _ _ => True)
          fun _ _ => ∃ o, low ≤ o ∧ o < high ∧ s.pageFails m o = true := by
      refine Post.mono (materializePages_throws low hfile ht hhigh count (page + 1) (hs.inv hi)
        (hl.of_sameShape hs.sameShape) (hs.mappings_eq ▸ hm) ?_) (fun _ _ h => h) ?_
      · intro p h1 h2
        obtain ⟨o, ho1, ho2, hpo⟩ := hpages p (by omega) (by omega)
        obtain ⟨e1, -, e3, -⟩ := hs.sameShape.transforms t
        exact ⟨o, ho1, ho2, by rw [LazyFilePageTransform.pageOf, e1, e3]; exact hpo⟩
      · rintro _ _ ⟨o, ho1, ho2, hf⟩
        exact ⟨o, ho1, ho2, (hsame o (by omega)).1 ▸ hf⟩
    obtain ⟨o, ho1, ho2, rfl⟩ := hpages page (le_refl _) (by omega)
    obtain ⟨-, -, -, -, f, hf, hsize⟩ := (hi.shaped m hm).lazyTransform t ht
    obtain rfl : f = file := by simpa [hf] using hfile
    rw [materializePages]
    refine Post.bind (Post.get ?_)
    dsimp only
    split
    · exact hrest .refl (.refl s m)
    · next hnew =>
      have hnew' := Bool.eq_false_iff.mpr hnew
      refine Post.bind (Post.raiseIf (fun hc => ?_) fun _ => Post.bind (Post.modify ?_))
      · simp only [decide_eq_true_eq] at hc
        omega
      · cases hthrow : (transformPage (s.transforms t) (s.files f).data
            ((s.transforms t).pageOf m o)).2 with
        | none =>
          exact hrest (.single (.transform hm hfile ht (by omega) hnew'))
            (sameBytes_applyTransform hi hl hm hm hfile ht hnew')
        | some message =>
          refine ⟨o, ho1, ho2, ?_⟩
          rw [pageOf_eq_filePage] at hnew' hthrow
          simp [pageFails, hfile, ht, fails, hnew', hthrow]

theorem Ready.shownByte {o : Nat} (h : s.Ready m o) : s.shownByte m o = s.contents m o := by
  unfold AddressSpace.shownByte
  split
  · next f t hfile ht =>
    have := h t ht
    rw [pageOf_eq_filePage] at this
    simp [shown, this, contents, hfile]
  · rfl

theorem Ready.pageFails {o : Nat} (h : s.Ready m o) : s.pageFails m o = false := by
  unfold AddressSpace.pageFails
  split
  · next f t hfile ht =>
    have := h t ht
    rw [pageOf_eq_filePage] at this
    simp [fails, this]
  · rfl

theorem materializeFileBytes_throws (hi : Inv s) (hl : LazyInv s) (hm : m ∈ s.mappings)
    {offset size : Nat} (hfits : offset + size ≤ m.size) :
    Post (materializeFileBytes m offset size) s (fun _ _ => True)
      fun _ _ => ∃ o, offset ≤ o ∧ o < offset + size ∧ s.pageFails m o = true := by
  unfold materializeFileBytes
  split
  · next file t hfile ht =>
    obtain ⟨-, hps, hlow, hhigh, -⟩ := (hi.shaped m hm).lazyTransform t ht
    unfold materialize
    refine Post.bind (Post.get ?_)
    dsimp only
    split
    · exact Post.pure trivial
    · refine Post.bind (Post.raiseIf (fun hc => ?_) fun _ => ?_)
      · simp only [Bool.or_eq_true, decide_eq_true_eq] at hc
        omega
      · exact materializePages_throws _ hfile ht hfits _ _ hi hl hm fun p h1 h2 =>
          exists_offset_on_page hps hlow (by omega) h1 h2
  · exact Post.pure trivial

/-- The bytes of a file mapping : the ones it shows, unless a page throws. -/
theorem loadChunk_shown (hi : Inv s) (hl : LazyInv s) (hm : m ∈ s.mappings)
    (hx : m.permissions.execute = true) {f : FileId} (hfile : m.fileBytes = some f)
    {offset : Nat} (hfits : offset ≤ m.size) :
    Post (loadChunk m offset (m.size - offset)) s
      (fun bytes _ => codeOf s m offset = some bytes) fun _ _ => codeOf s m offset = none := by
  have hsize := ((hi.shaped m hm).file f hfile).2
  unfold loadChunk
  simp only [hfile]
  refine Post.bind (Post.mono (Post.and
    (materializeFileBytes_spec hi hm (show offset + (m.size - offset) ≤ m.size by omega))
    (materializeFileBytes_throws hi hl hm (by omega))) ?_ ?_)
  · rintro _ s' ⟨⟨hs, hready⟩, -⟩
    refine Post.bind (Post.get (Post.bind (Post.raiseIf (fun hc => ?_) fun _ => Post.pure ?_)))
    · rw [hs.sameShape.files, decide_eq_true_eq] at hc
      omega
    · have hsame := (hs.sameCode hi hl (fun _ h => h.elim) m hx).2 hm
      rw [← hsame.codeOf_eq]
      unfold codeOf
      simp only [hfile]
      rw [if_pos fun k hk => (hready k hk).pageFails]
      congr 1
      refine List.map_congr_left fun k hk => ?_
      rw [(hready k (List.mem_range.mp hk)).shownByte]
      simp [contents, hfile, Nat.add_assoc]
  · rintro _ s' ⟨-, o, h1, h2, hf⟩
    unfold codeOf
    simp only [hfile]
    rw [if_neg]
    intro hall
    have := hall (o - offset) (by omega)
    rw [show offset + (o - offset) = o by omega, hf] at this
    cases this

theorem HasCode.unique (hi : Inv s) {address : Nat} {bytes bytes' : List Byte}
    (h : HasCode s address bytes) (h' : HasCode s address bytes') : bytes = bytes' := by
  obtain ⟨m, hm, -, h1, h2, h3⟩ := h
  obtain ⟨m', hm', -, h1', h2', h3'⟩ := h'
  obtain ⟨i, hi'⟩ := List.getElem?_of_mem hm
  obtain ⟨j, hj⟩ := List.getElem?_of_mem hm'
  obtain rfl := hi.sorted.unique hi' hj (by omega) (by omega)
  obtain rfl : m = m' := by simpa [hi'] using hj
  simpa [h3] using h3'

/-- `executableBytes` returns exactly the bytes the address has. -/
theorem executableBytes_post (hi : Inv s) (hl : LazyInv s) (address : Nat) :
    Post (executableBytes address) s (fun bytes _ => HasCode s address bytes)
      fun _ _ => ∀ bytes, ¬HasCode s address bytes := by
  have hfound {m : Mapping} (hm : m ∈ s.mappings) (hx : m.permissions.execute = true)
      (h1 : m.base ≤ address) (h2 : address < m.base + m.size) :
      ∃ i, Found s address 1 { execute := true } i m := by
    obtain ⟨i, hi'⟩ := List.getElem?_of_mem hm
    exact ⟨i, hi', h1, by omega, by simp [Permission.has, hx]⟩
  have hexec {i : Nat} {m : Mapping} (hf : Found s address 1 { execute := true } i m) :
      m.permissions.execute = true := by simpa [Permission.has] using hf.permitted
  unfold executableBytes
  by_cases hex : ∃ i m, Found s address 1 { execute := true } i m
  · obtain ⟨i, m, hf⟩ := hex
    have hbase : m.base ≤ address := hf.base
    have hlimit : address + 1 ≤ m.base + m.size := hf.limit
    have hhas {bytes : List Byte} : HasCode s address bytes ↔
        codeOf s m (address - m.base) = some bytes := by
      constructor
      · rintro ⟨m', hm', hx, h1, h2, h3⟩
        obtain ⟨j, hf'⟩ := hfound hm' hx h1 h2
        obtain ⟨-, rfl⟩ := hf.unique hi hf'
        exact h3
      · exact fun h => ⟨m, hf.mem, hexec hf, hbase, by omega, h⟩
    simp only [hhas]
    refine Post.bind (Post.mono (find_found hi Nat.one_pos hf) ?_ fun _ _ h => h.elim)
    rintro _ s1 ⟨rfl, hs1⟩
    have hi1 := hs1.inv hi
    have hl1 := hl.of_sameShape hs1.sameShape
    have hm1 : m ∈ s1.mappings := hs1.mappings_eq ▸ hf.mem
    have hsame := (hs1.sameCode hi hl (fun _ h => h.elim) m (hexec hf)).2 hf.mem
    dsimp only
    simp only [← hsame.codeOf_eq]
    split
    · next f hfile =>
      refine Post.mono (loadChunk_shown hi1 hl1 hm1 (hexec hf) hfile (by omega)) (fun _ _ h => h) ?_
      intro _ _ h bytes
      simp [h]
    · next hfile =>
      unfold codeOf
      simp only [hfile]
      refine Post.bind (Post.raiseIf (fun hc => ?_) fun hc => Post.pure ?_)
      · simp only [decide_eq_true_eq] at hc
        simp [Nat.not_le.mpr hc]
      · simp only [decide_eq_false_iff_not, not_lt] at hc
        simp [hc]
  · refine Post.bind (Post.mono (find_spec hi Nat.one_pos _) ?_ ?_)
    · rintro ⟨i, m⟩ s1 ⟨-, hf⟩
      exact absurd ⟨i, m, hf⟩ hex
    · rintro _ s1 - bytes ⟨m, hm, hx, h1, h2, -⟩
      obtain ⟨i, hf⟩ := hfound hm hx h1 h2
      exact hex ⟨i, m, hf⟩

/-- The executable bytes of an address, if the code can fetch there. -/
def code (s : AddressSpace) (address : Nat) : Option (List Byte) :=
  (executableBytes address s).1.toOption

theorem code_eq_some_iff (hi : Inv s) (hl : LazyInv s) {address : Nat} {bytes : List Byte} :
    code s address = some bytes ↔ HasCode s address bytes := by
  have h := executableBytes_post hi hl address
  unfold Post at h
  unfold code
  split at h
  · next b s' hx =>
    simp only [hx, Except.toOption, Option.some.injEq]
    exact ⟨fun he => he ▸ h, fun h' => h.unique hi h'⟩
  · next e s' hx =>
    simp only [hx, Except.toOption, reduceCtorEq, false_iff]
    exact h bytes

theorem SameCode.code_eq (h : SameCode s s') (hi : Inv s) (hl : LazyInv s) (hi' : Inv s')
    (hl' : LazyInv s') (address : Nat) : code s' address = code s address := by
  apply Option.ext
  intro bytes
  rw [code_eq_some_iff hi' hl', code_eq_some_iff hi hl, h.hasCode_iff]

/-! ## What a call counts -/

/-- The call is counted if it changes what can be executed : sparse data goes into memory
that is not executable, a lazy transform works page by page and is installed on memory
that is not executable and has none yet, and no reservation becomes accessible. -/
def Call.CountsChanges (s : AddressSpace) : Call → Prop
  | .populateSparseReadOnly address _ => ∀ m ∈ s.mappings, m.base ≤ address.toNat →
    address.toNat < m.base + m.size → m.permissions.execute = false
  | .installLazyFilePageTransform base pageSize (some transform) =>
    ∀ m ∈ s.mappings, m.base = base.toNat → m.permissions.execute = false ∧
      m.lazyFileTransform = none ∧ PageLocal transform pageSize.toNat m.size
  | call => call.SparesReservations s

theorem Call.CountsChanges.sparesReservations {call : Call} (h : call.CountsChanges s) :
    call.SparesReservations s := by
  cases call with
  | populateSparseReadOnly => trivial
  | installLazyFilePageTransform => trivial
  | _ => exact h

/-- The change was counted, or there was none. -/
def Counted (s s' : AddressSpace) : Prop :=
  s'.executableVersion = s.executableVersion + 1 ∨
    (s'.executableVersion = s.executableVersion ∧ SameCode s s')

theorem Counted.of_bumped {flag : Bool} {s1 : AddressSpace}
    (hversion : s1.executableVersion = s.executableVersion) (h : flag = false → SameCode s s1) :
    Counted s (bumped flag s1) := by
  cases flag with
  | true => exact .inl (by rw [← hversion]; rfl)
  | false => exact .inr ⟨hversion, h rfl⟩

/-- If every mapping that is cut is not executable and neither are its pieces, the
executable mappings stay. -/
theorem mem_flatMap_of_execute {ms : List Mapping} {pieces : Mapping → List Mapping}
    (h : ∀ a ∈ ms, pieces a = [a] ∨
      (a.permissions.execute = false ∧ ∀ p ∈ pieces a, p.permissions.execute = false))
    (hx : m.permissions.execute = true) : m ∈ ms.flatMap pieces ↔ m ∈ ms := by
  rw [List.mem_flatMap]
  constructor
  · rintro ⟨a, ha, hm⟩
    rcases h a ha with hkeep | ⟨-, hpieces⟩
    · rw [hkeep, List.mem_singleton] at hm
      exact hm ▸ ha
    · simp [hpieces m hm] at hx
  · intro hm
    refine ⟨m, hm, ?_⟩
    rcases h m hm with hkeep | ⟨hno, -⟩
    · simp [hkeep]
    · simp [hno] at hx

theorem Added.counted (h : Added s m s') (hi : Inv s) : Counted s s' := by
  have hnew (s1 : AddressSpace) (hm : s1.mappings = s.mappings)
      (hv : s1.executableVersion = s.executableVersion)
      (hf : ∀ f < s.fileCount, s1.files f = s.files f) (ht : s1.transforms = s.transforms) :
      Counted s (inserted m s1) := by
    refine Counted.of_bumped hv fun hx => .of_mappings hi hf (fun t _ => congrFun ht t) ?_
    intro a ha
    change a ∈ s1.mappings.insertIdx (lowerBound s1.mappings m.base) m ↔ _
    rw [mem_insertIdx_lowerBound, hm]
    refine or_iff_right ?_
    rintro rfl
    simp [hx] at ha
  rcases h.space with ⟨-, -, rfl⟩ | ⟨-, -, file, -, rfl⟩
  · exact hnew s rfl rfl (fun _ _ => rfl) rfl
  · exact hnew _ rfl rfl (fun f hf => Function.update_of_ne (Nat.ne_of_lt hf) _ _) rfl

theorem BatchAdded.isCounted {pending : List Mapping} {flag : Bool}
    (h : BatchAdded s pending flag s') (hi : Inv s) : Counted s s' := by
  rw [h.space]
  refine Counted.of_bumped rfl fun hflag =>
    .of_mappings hi (fun _ _ => rfl) (fun _ _ => rfl) fun a ha => ?_
  rw [mem_mergeMappings]
  refine or_iff_left fun hp => ?_
  simpa [hflag] using h.counted a hp ha

theorem Protected.counted {address size start limit : Nat} {permissions : Permission}
    {makePrivateCopy flag : Bool} (hi : Inv s)
    (h : Protected s address size permissions makePrivateCopy start limit flag s') :
    Counted s s' := by
  rw [h.space]
  refine Counted.of_bumped rfl fun hflag =>
    .of_mappings hi (fun _ _ => rfl) (fun _ _ => rfl) fun a ha =>
      mem_flatMap_of_execute (fun b hb => ?_) ha
  obtain ⟨-, -, hlt, -⟩ := pageRange_eq_some h.nonempty h.range
  obtain ⟨hstart, hscan⟩ := scanRange_spec hi h.scan
  have hnew : permissions.execute = false := by
    by_contra hx
    simp [hstart (by simpa using hx)] at hflag
  cases hout : outsideRange start limit b with
  | true => exact .inl (by simp [protectPieces, hout])
  | false =>
    have hover := (outsideRange_eq_false (hi.placed b hb) hlt).mp hout
    have hold : b.permissions.execute = false := by
      by_contra hx
      simp [(hscan b hb hover).1 (by simpa using hx)] at hflag
    refine .inr ⟨hold, fun p hp => ?_⟩
    rcases ((h.pieces hi hb).1 p hp).2 with ⟨hkeep, -⟩ | ⟨-, hperm, -⟩
    · rw [hkeep, hold]
    · rw [hperm, hnew]

theorem Deallocated.counted {address size start limit : Nat} {flag : Bool} (hi : Inv s)
    (h : Deallocated s address size start limit flag s') : Counted s s' := by
  rw [h.space]
  refine Counted.of_bumped rfl fun hflag =>
    .of_mappings hi (fun _ _ => rfl) (fun _ _ => rfl) fun a ha =>
      mem_flatMap_of_execute (fun b hb => ?_) ha
  obtain ⟨-, -, hlt, -⟩ := pageRange_eq_some h.nonempty h.range
  cases hout : outsideRange start limit b with
  | true => exact .inl (by simp [deallocatePieces, hout])
  | false =>
    have hover := (outsideRange_eq_false (hi.placed b hb) hlt).mp hout
    have hold : b.permissions.execute = false := by
      by_contra hx
      simp [h.overlapping b hb hover (by simpa using hx)] at hflag
    exact .inr ⟨hold, fun p hp => by rw [((h.pieces hi hb).1 p hp).2.1, hold]⟩

theorem Installed.sameCode {i pageSize : Nat} {transform : PageTransform}
    (h : Installed s i pageSize m transform s') (hi : Inv s)
    (hx : m.permissions.execute = false) : SameCode s s' := by
  rw [h.space]
  exact .of_mappings hi (fun _ _ => rfl) (fun t ht => Function.update_of_ne (Nat.ne_of_lt ht) _ _)
    fun a ha => mem_set_of_execute h.index hx hx ha

/-- One call : what it changes is counted, and the transforms stay in their places. -/
theorem Effect.counted {call : Call} (hi : Inv s) (hl : LazyInv s) (h : Effect s call s')
    (hcall : call.CountsChanges s) : LazyInv s' ∧ Counted s s' := by
  cases h with
  | stores h =>
    obtain ⟨flag, s1, h1, rfl⟩ := h
    refine ⟨(hl.of_sameShape h1.sameShape).bump, Counted.of_bumped h1.executableVersion fun hflag => ?_⟩
    refine h1.sameCode hi hl fun a ha => ?_
    by_contra hx
    simp [hflag] at ha
    exact hx ha
  | added h => exact ⟨h.lazyInv hi hl, h.counted hi⟩
  | batchAdded h => exact ⟨h.lazyInv hi hl, h.isCounted hi⟩
  | @populated address data s1 i a hdata hs hf hsparse =>
    have hindex : s1.mappings[i]? = some a := hs.mappings_eq ▸ hf.index
    have hlen : a.base ≤ address.toNat ∧ address.toNat + data.length ≤ a.base + a.size :=
      ⟨hf.base, hf.limit⟩
    have hi1 := hs.inv hi
    have hl1 := hl.of_sameShape hs.sameShape
    refine ⟨hl1.of_sameShape (.set hindex (populated_sameShape _ _ _)),
      .inr ⟨hs.executableVersion, (hs.sameCode hi hl fun _ h => h.elim).trans ?_⟩⟩
    have hpos := List.length_pos_iff.mpr hdata
    have hx := hcall a hf.mem hlen.1 (by omega)
    exact .of_mappings hi1 (fun _ _ => rfl) (fun _ _ => rfl)
      fun b hb => mem_set_of_execute hindex hx hx hb
  | isProtected h =>
    refine ⟨?_, h.counted hi⟩
    rw [h.space]
    exact hl.flatMap fun a ha p hp => ((h.pieces hi ha).1 p hp).1
  | deallocated h =>
    refine ⟨?_, h.counted hi⟩
    rw [h.space]
    exact hl.flatMap fun a ha p hp => ((h.pieces hi ha).1 p hp).1
  | installed hbase h =>
    obtain ⟨hx, hnone, hlocal⟩ := hcall _ (List.mem_of_getElem? h.index) hbase
    refine ⟨h.lazyInv hi hl hnone hlocal, .inr ⟨?_, h.sameCode hi hx⟩⟩
    rw [h.space]

/-! ## Every sequence of calls -/

/-- What the counter relies on. -/
structure Countable (s : AddressSpace) : Prop where
  inv : Inv s
  backed : Backed s
  lazyInv : LazyInv s

theorem Countable.initial : Countable {} where
  inv := .initial
  backed := by simp [Backed]
  lazyInv := ⟨by simp, by simp, by simp, by simp⟩

theorem Countable.after (h : Countable s) {call : Call} (hcall : call.CountsChanges s) :
    Countable (s.after call) ∧ Counted s (s.after call) := by
  have he := (after_effect h.inv h.backed call).1
  obtain ⟨hl, hc⟩ := he.counted h.inv h.lazyInv hcall
  exact ⟨⟨he.inv h.inv, he.backed h.inv h.backed hcall.sparesReservations, hl⟩, hc⟩

/-- Over a sequence of calls the counter grows by the number of changes. -/
theorem afterAll_counted : ∀ (calls : List Call) {s : AddressSpace}, Countable s →
    Along (fun s call => call.CountsChanges s) s calls →
    ∃ changes ≤ calls.length,
      (s.afterAll calls).executableVersion = s.executableVersion + BitVec.ofNat 64 changes ∧
        (changes = 0 → SameCode s (s.afterAll calls))
  | [], s, _, _ => ⟨0, le_refl _, by simp [afterAll], fun _ => .refl s⟩
  | call :: calls, s, hs, hcalls => by
    obtain ⟨hs', hc⟩ := hs.after hcalls.1
    obtain ⟨changes, hle, hversion, hsame⟩ := afterAll_counted calls hs' hcalls.2
    rcases hc with hc | ⟨hc, hcode⟩
    · refine ⟨changes + 1, Nat.succ_le_succ hle, ?_, by simp⟩
      rw [show s.afterAll (call :: calls) = (s.after call).afterAll calls from rfl, hversion, hc]
      have hone : (1 : BitVec 64).toNat = 1 := rfl
      apply BitVec.eq_of_toNat_eq
      simp only [BitVec.toNat_add, BitVec.toNat_ofNat, hone]
      omega
    · refine ⟨changes, Nat.le_succ_of_le hle, ?_, fun h0 => hcode.trans (hsame h0)⟩
      rw [show s.afterAll (call :: calls) = (s.after call).afterAll calls from rfl, hversion, hc]

theorem Countable.afterAll {calls : List Call} (hs : Countable s)
    (h : Along (fun s call => call.CountsChanges s) s calls) : Countable (s.afterAll calls) :=
  Along.induction (P := Countable) (fun _ _ hs hcall => (hs.after hcall).1) hs h

/-- If `executableVersion` has the same value at two points of a sequence of calls that
are all counted, and there are fewer than `2 ^ 64` calls between them, then every address
has the same executable bytes at both points, or has none at both. -/
theorem code_eq_of_executableVersion_eq (before between : List Call)
    (h : Along (fun s call => call.CountsChanges s) {} (before ++ between))
    (hlength : between.length < 2 ^ 64)
    (hversion : (afterAll {} (before ++ between)).executableVersion =
      (afterAll {} before).executableVersion) (address : BitVec 64) :
    code (afterAll {} (before ++ between)) address.toNat =
      code (afterAll {} before) address.toNat := by
  obtain ⟨hbefore, hbetween⟩ := h.append
  have hs := Countable.initial.afterAll hbefore
  have hs' := Countable.initial.afterAll h
  have hfold : afterAll {} (before ++ between) = (afterAll {} before).afterAll between :=
    List.foldl_append
  rw [hfold] at hversion hs' ⊢
  obtain ⟨changes, hle, hcount, hsame⟩ := afterAll_counted between hs hbetween
  have hzero : changes = 0 := by
    have := congrArg BitVec.toNat (hcount.symm.trans hversion)
    simp only [BitVec.toNat_add, BitVec.toNat_ofNat] at this
    have := (afterAll {} before).executableVersion.isLt
    omega
  exact (hsame hzero).code_eq hs.inv hs.lazyInv hs'.inv hs'.lazyInv _

/-- Data stored beside code. -/
def dataCalls : List Call :=
  [.mapAnonymous 0x4000 0x1000 { read := true, write := true } { read := true, write := true }
    "data" none, .writeWord 0x4000 8 0x1234]

/-- Code. -/
def codeCalls : List Call :=
  [.mapAnonymous 0x1000 0x1000 { read := true, execute := true }
    { read := true, write := true, execute := true } "code" none]

theorem code_eq_of_executableVersion_eq_data :
    (afterAll {} (codeCalls ++ dataCalls)).executableVersion =
        (afterAll {} codeCalls).executableVersion ∧
      code (afterAll {} (codeCalls ++ dataCalls)) 0x1fff = code (afterAll {} codeCalls) 0x1fff :=
  ⟨rfl, code_eq_of_executableVersion_eq codeCalls dataCalls ⟨trivial, trivial, trivial, trivial⟩
    (by decide) rfl 0x1fff⟩

/-- A lazy transform on code, that fills every page with one byte. -/
def transformCalls : List Call :=
  [.installLazyFilePageTransform 0x1000 0x1000 (some fun _ _ _ => (fun _ => 1, none))]

/-- The transform changes the executable bytes and is not counted. -/
theorem executableVersion_unsound :
    (afterAll {} (codeCalls ++ transformCalls)).executableVersion =
        (afterAll {} codeCalls).executableVersion ∧
      code (afterAll {} codeCalls) 0x1fff = some [0] ∧
      code (afterAll {} (codeCalls ++ transformCalls)) 0x1fff = some [1] :=
  ⟨rfl, rfl, rfl⟩

end AddressSpace

end Rosa
