import Rosa.Guest.Access

/-!
# New mappings

A mapping is created only where `validateNewMapping` finds room for it, alone or in a
batch. `Added` and `BatchAdded` say what a successful call leaves; a call that throws
leaves the space as it was.
-/

namespace Rosa

theorem Mapping.Shaped.mono {s s' : AddressSpace} {m : Mapping} (h : m.Shaped s)
    (hfiles : ∀ f < s.fileCount, (s'.files f).size = (s.files f).size)
    (hcount : s.fileCount ≤ s'.fileCount) (htransforms : s'.transforms = s.transforms)
    (htcount : s'.transformCount = s.transformCount) : m.Shaped s' where
  bytes := h.bytes
  readable := h.readable
  file f hf := by
    obtain ⟨h1, h2⟩ := h.file f hf
    exact ⟨lt_of_lt_of_le h1 hcount, by rw [hfiles f h1]; exact h2⟩
  lazyTransform t ht := by
    obtain ⟨h1, h2, h3, h4, f, hf, h5⟩ := h.lazyTransform t ht
    rw [htransforms, htcount]
    exact ⟨h1, h2, h3, h4, f, hf, by rw [hfiles f (h.file f hf).1]; exact h5⟩

namespace AddressSpace

open Rosa.Computation

variable {s s' : AddressSpace}

/-- What `validateNewMapping` lets through. -/
structure Fits (s : AddressSpace) (base size : Nat) (permissions maximumPermissions : Permission) :
    Prop where
  nonempty : 0 < size
  baseAligned : base % guestPageSize = 0
  sizeAligned : size % guestPageSize = 0
  below : base + size < 2 ^ 64
  within : maximumPermissions.has permissions = true
  free : ∀ m ∈ s.mappings, m.base + m.size ≤ base ∨ base + size ≤ m.base

/-- A throw that changes nothing and indexes nothing. -/
def Refused (s : AddressSpace) (e : AccessError) (s' : AddressSpace) : Prop :=
  s' = s ∧ e ≠ .outsideBacking

theorem Post.failIf_bind {α : Type} {condition : Bool} {message : String} {f : Unit → Access α}
    {Q : α → AddressSpace → Prop} (h : condition = false → Post (f ()) s Q (Refused s)) :
    Post (failIf condition message >>= f) s Q (Refused s) :=
  Post.bind (Post.raiseIf (fun _ => ⟨rfl, by simp⟩) h)

theorem Post.failIf {condition : Bool} {message : String} {Q : Unit → AddressSpace → Prop}
    (h : condition = false → Q () s) : Post (failIf condition message) s Q (Refused s) :=
  Post.raiseIf (fun _ => ⟨rfl, by simp⟩) h

theorem Post.failWith_bind {α : Type} {message : Option String} {f : Unit → Access α}
    {Q : α → AddressSpace → Prop} (h : Post (f ()) s Q (Refused s)) :
    Post (failWith message >>= f) s Q (Refused s) := by
  cases message with
  | none => exact h
  | some m => exact ⟨rfl, by simp⟩

/-- The mappings on the two sides of the lower bound of an address. -/
theorem Sorted.lowerBound {ms : List Mapping} (hsorted : Sorted ms) (hne : ∀ m ∈ ms, 0 < m.size)
    {base size : Nat}
    (hnext : ∀ m, ms[lowerBound ms base]? = some m → base + size ≤ m.base)
    (hprevious : ∀ m, lowerBound ms base ≠ 0 → ms[lowerBound ms base - 1]? = some m →
      m.base + m.size ≤ base) :
    ∀ m ∈ ms, m.base + m.size ≤ base ∨ base + size ≤ m.base := by
  induction ms with
  | nil => simp
  | cons a ms ih =>
    have hrest := List.pairwise_cons.mp hsorted
    by_cases ha : a.base < base
    · have hlb : AddressSpace.lowerBound (a :: ms) base = AddressSpace.lowerBound ms base + 1 := by
        simp [AddressSpace.lowerBound, ha]
      rw [hlb] at hnext hprevious
      have hrec := ih hrest.2 (fun m hm => hne m (List.mem_cons_of_mem _ hm))
        (fun m hm => hnext m (by simpa using hm))
        (fun m h0 hm => hprevious m (by omega) (by
          obtain ⟨k, hk⟩ := Nat.exists_eq_succ_of_ne_zero h0
          simpa [hk] using hm))
      intro m hm
      rcases List.mem_cons.mp hm with rfl | hm
      · left
        by_cases h0 : AddressSpace.lowerBound ms base = 0
        · exact hprevious m (by omega) (by simp [h0])
        · -- the first of the rest also starts below the address
          cases ms with
          | nil => simp [AddressSpace.lowerBound] at h0
          | cons b ms =>
            have hb : b.base < base := by
              by_contra hb
              simp [AddressSpace.lowerBound, hb] at h0
            have := hrest.1 b (by simp)
            omega
      · exact hrec m hm
    · have hlb : AddressSpace.lowerBound (a :: ms) base = 0 := by
        simp [AddressSpace.lowerBound, ha]
      rw [hlb] at hnext
      have := hnext a rfl
      intro m hm
      rcases List.mem_cons.mp hm with rfl | hm
      · exact .inr this
      · have := hrest.1 m hm
        have := hne a (by simp)
        omega

theorem validateNewMapping_spec (hi : Inv s) {base size : Nat} (hsize : size < 2 ^ 64)
    (permissions maximumPermissions : Permission) :
    Post (validateNewMapping base size permissions maximumPermissions) s
      (fun _ s' => s' = s ∧ Fits s base size permissions maximumPermissions) (Refused s) := by
  unfold validateNewMapping
  refine Post.failIf_bind fun h1 => Post.failIf_bind fun h2 => Post.failIf_bind fun h3 => ?_
  refine Post.bind (Post.get ?_)
  refine Post.failIf_bind fun h4 => Post.failIf fun h5 => ⟨rfl, ?_⟩
  simp only [Bool.or_eq_false_iff, beq_eq_false_iff_ne, bne_eq_false_iff_eq] at h1
  simp only [decide_eq_false_iff_not, not_lt] at h2
  simp only [Bool.not_eq_false'] at h3
  refine ⟨by omega, h1.1.2, h1.2, by omega, h3, ?_⟩
  refine hi.sorted.lowerBound (fun m hm => (hi.placed m hm).nonempty) ?_ ?_
  · intro m hm
    simpa [hm] using h4
  · intro m h0 hm
    have := (hi.placed m (List.mem_of_getElem? hm)).limit_eq
    simp only [hm, Option.any_some, Bool.and_eq_false_iff, bne_eq_false_iff_eq,
      decide_eq_false_iff_not, not_lt] at h5
    rw [← this]
    exact h5.resolve_left h0

/-- Inserting a mapping that fits. -/
theorem sorted_insertIdx {ms : List Mapping} {m : Mapping} (hsorted : Sorted ms)
    (hne : 0 < m.size) (hne' : ∀ a ∈ ms, 0 < a.size)
    (hfree : ∀ a ∈ ms, a.base + a.size ≤ m.base ∨ m.base + m.size ≤ a.base) :
    Sorted (ms.insertIdx (lowerBound ms m.base) m) := by
  induction ms with
  | nil => simp [Sorted, lowerBound]
  | cons a ms ih =>
    have hrest := List.pairwise_cons.mp hsorted
    by_cases ha : a.base < m.base
    · have hlb : lowerBound (a :: ms) m.base = lowerBound ms m.base + 1 := by
        simp [lowerBound, ha]
      rw [hlb, List.insertIdx_succ_cons]
      refine List.pairwise_cons.mpr ⟨fun b hb => ?_, ih hrest.2
        (fun a ha => hne' a (List.mem_cons_of_mem _ ha))
        fun a ha => hfree a (List.mem_cons_of_mem _ ha)⟩
      have hle : lowerBound ms m.base ≤ ms.length := (List.takeWhile_sublist _).length_le
      rcases (List.mem_insertIdx hle).mp hb with rfl | hb
      · have := hfree a (by simp)
        have := hne' a (by simp)
        omega
      · exact hrest.1 b hb
    · have hlb : lowerBound (a :: ms) m.base = 0 := by simp [lowerBound, ha]
      rw [hlb, List.insertIdx_zero]
      refine List.pairwise_cons.mpr ⟨fun b hb => ?_, hsorted⟩
      rcases List.mem_cons.mp hb with rfl | hb
      · have := hfree b (by simp)
        have := hne' b (by simp)
        omega
      · have := hrest.1 b hb
        have := hfree a (by simp)
        have := hne' a (by simp)
        omega

/-- The space with host memory added. -/
def allocated (file : PrivateFileMapping) (s : AddressSpace) : AddressSpace :=
  { s with files := Function.update s.files s.fileCount file, fileCount := s.fileCount + 1 }

/-- The space with a mapping inserted. -/
def inserted (m : Mapping) (s : AddressSpace) : AddressSpace :=
  bumped m.permissions.execute (invalidateMappingLookup
    { s with mappings := s.mappings.insertIdx (lowerBound s.mappings m.base) m })

theorem mem_insertIdx_lowerBound {ms : List Mapping} {m a : Mapping} {base : Nat} :
    a ∈ ms.insertIdx (lowerBound ms base) m ↔ a = m ∨ a ∈ ms :=
  List.mem_insertIdx (List.takeWhile_sublist _).length_le

/-- A mapping was added, with or without host memory of its own. -/
structure Added (s : AddressSpace) (m : Mapping) (s' : AddressSpace) : Prop where
  fits : Fits s m.base m.size m.permissions m.maximumPermissions
  notLazy : m.lazyFileTransform = none
  sparse : m.readableBytes.size = 0 ∨ (m.readableBytes.size = m.size ∧ m.bytes.size = m.size)
  backing : m.maximumPermissions ≠ .none → m.HasBacking
  space : (m.fileBytes = none ∧ (m.bytes.size = 0 ∨ m.bytes.size = m.size) ∧ s' = inserted m s) ∨
    (m.fileBytes = some s.fileCount ∧ m.bytes.size = 0 ∧
      ∃ file, m.fileDataOffset + m.size ≤ file.size ∧ s' = inserted m (allocated file s))

theorem Added.mem {m a : Mapping} (h : Added s m s') : a ∈ s'.mappings ↔ a = m ∨ a ∈ s.mappings := by
  rcases h.space with ⟨-, -, rfl⟩ | ⟨-, -, file, -, rfl⟩ <;> exact mem_insertIdx_lowerBound

theorem Added.inv {m : Mapping} (hi : Inv s) (h : Added s m s') : Inv s' := by
  have hplaced : m.Placed :=
    ⟨h.fits.nonempty, h.fits.baseAligned, h.fits.sizeAligned, h.fits.below, h.fits.within⟩
  have hsorted : Sorted s'.mappings := by
    have := sorted_insertIdx hi.sorted h.fits.nonempty (fun a ha => (hi.placed a ha).nonempty)
      h.fits.free
    rcases h.space with ⟨-, -, rfl⟩ | ⟨-, -, file, -, rfl⟩ <;> exact this
  have hfiles : ∀ f < s.fileCount, (s'.files f).size = (s.files f).size := by
    rcases h.space with ⟨-, -, rfl⟩ | ⟨-, -, file, -, rfl⟩
    · exact fun _ _ => rfl
    · intro f hf
      have : f ≠ s.fileCount := by omega
      simp [inserted, allocated, invalidateMappingLookup, bumped, this]
  have hcount : s.fileCount ≤ s'.fileCount := by
    rcases h.space with ⟨-, -, rfl⟩ | ⟨-, -, file, -, rfl⟩
    · exact le_refl _
    · exact Nat.le_succ _
  have htransforms : s'.transforms = s.transforms ∧ s'.transformCount = s.transformCount := by
    rcases h.space with ⟨-, -, rfl⟩ | ⟨-, -, file, -, rfl⟩ <;> exact ⟨rfl, rfl⟩
  have hfresh (a : Mapping) (ha : a ∈ s.mappings) (f : FileId) (hf : a.fileBytes = some f) :
      m.fileBytes ≠ some f := by
    have := ((hi.shaped a ha).file f hf).1
    rcases h.space with ⟨hnone, -⟩ | ⟨hsome, -⟩
    · simp [hnone]
    · rw [hsome]
      intro hsame
      obtain rfl := Option.some.inj hsame
      exact absurd this (lt_irrefl _)
  refine ⟨?_, hsorted, ?_, ?_, ?_⟩
  · intro a ha
    rcases h.mem.mp ha with rfl | ha
    · exact hplaced
    · exact hi.placed a ha
  · intro a ha
    rcases h.mem.mp ha with rfl | ha
    · refine ⟨?_, h.sparse, ?_, by simp [h.notLazy]⟩
      · rcases h.space with ⟨-, hb, -⟩ | ⟨-, hb, -⟩
        · exact hb
        · exact .inl hb
      · intro f hf
        rcases h.space with ⟨hnone, -⟩ | ⟨hsome, -, file, hsize, rfl⟩
        · simp [hnone] at hf
        · obtain rfl : s.fileCount = f := by simpa [hsome] using hf
          refine ⟨Nat.lt_succ_self _, ?_⟩
          simpa [inserted, allocated, invalidateMappingLookup, bumped] using hsize
    · exact (hi.shaped a ha).mono hfiles hcount htransforms.1 htransforms.2
  · intro a ha b hb f hfa hfb
    rcases h.mem.mp ha with rfl | ha <;> rcases h.mem.mp hb with rfl | hb
    · rfl
    · exact absurd hfa (hfresh b hb f hfb)
    · exact absurd hfb (hfresh a ha f hfa)
    · exact hi.shift a ha b hb f hfa hfb
  · intro slot entry he
    rcases h.space with ⟨-, -, rfl⟩ | ⟨-, -, file, -, rfl⟩ <;> cases he

theorem Added.backed {m : Mapping} (h : Added s m s') (hb : Backed s) : Backed s' := by
  intro a ha hmax
  rcases h.mem.mp ha with rfl | ha
  · exact h.backing hmax
  · exact hb a ha hmax

theorem mapAnonymous_spec (hi : Inv s) {base size : Nat} (hsize : size < 2 ^ 64)
    (permissions maximumPermissions : Permission) (label : String) (refused : Option String) :
    Post (mapAnonymous base size permissions maximumPermissions label refused) s
      (fun _ s' => ∃ m, Added s m s') (Refused s) := by
  unfold mapAnonymous
  refine Post.bind (Post.mono (validateNewMapping_spec hi hsize _ _) ?_ fun _ _ h => h)
  rintro _ _ ⟨rfl, hfits⟩
  split
  · next hnone =>
    exact ⟨_, hfits, rfl, .inl rfl, fun h => absurd hnone h, .inl ⟨rfl, .inl rfl, rfl⟩⟩
  · refine Post.failWith_bind ?_
    exact ⟨_, hfits, rfl, .inl rfl, fun _ => .inl rfl,
      .inr ⟨rfl, rfl, ⟨size, fun _ => 0⟩, by simp, rfl⟩⟩

theorem segmentBacking_size (size : Nat) (maximumPermissions : Permission) (bytes : List Byte) :
    (segmentBacking size maximumPermissions bytes).size = 0 ∨
      (segmentBacking size maximumPermissions bytes).size = size := by
  unfold segmentBacking
  split
  · exact .inl rfl
  · exact .inr rfl

theorem mapSegment_spec (hi : Inv s) {base size : Nat} (hsize : size < 2 ^ 64)
    (permissions maximumPermissions : Permission) (fileBytes : List Byte) (label : String) :
    Post (mapSegment base size permissions maximumPermissions fileBytes label) s
      (fun _ s' => ∃ m, Added s m s') (Refused s) := by
  unfold mapSegment addMapping
  refine Post.failIf_bind fun _ => ?_
  refine Post.bind (Post.mono (validateNewMapping_spec hi hsize _ _) ?_ fun _ _ h => h)
  rintro _ _ ⟨rfl, hfits⟩
  refine ⟨_, hfits, rfl, .inl rfl, fun hmax => .inr ?_, .inl ⟨rfl, ?_, rfl⟩⟩
  · have hmax' : maximumPermissions ≠ .none := hmax
    simp [segmentBacking, hmax', HostVector.ofList]
  · exact segmentBacking_size _ _ _

theorem mapFileSegment_spec (hi : Inv s) {base size : Nat} (hsize : size < 2 ^ 64)
    (permissions maximumPermissions : Permission) (file : HostFile) (fileOffset : Nat)
    (label : String) :
    Post (mapFileSegment base size permissions maximumPermissions file fileOffset label) s
      (fun _ s' => ∃ m, Added s m s') (Refused s) := by
  unfold mapFileSegment
  refine Post.bind (Post.mono (validateNewMapping_spec hi hsize _ _) ?_ fun _ _ h => h)
  rintro _ _ ⟨rfl, hfits⟩
  refine Post.failWith_bind (Post.failWith_bind (Post.failIf_bind fun _ => ?_))
  refine Post.failIf_bind fun _ => Post.failIf_bind fun _ => Post.failIf_bind fun _ => ?_
  refine Post.failIf_bind fun _ => Post.failWith_bind ?_
  exact ⟨_, hfits, rfl, .inl rfl, fun _ => .inl rfl, .inr ⟨rfl, rfl, ⟨_, _⟩, le_refl _, rfl⟩⟩

theorem mapSparseReadOnly_spec (hi : Inv s) {base size : Nat} (hsize : size < 2 ^ 64)
    (dataOffset : Nat) (data : List Byte) (label : String) :
    Post (mapSparseReadOnly base size dataOffset data label) s
      (fun _ s' => ∃ m, Added s m s') (Refused s) := by
  unfold mapSparseReadOnly
  refine Post.failIf_bind fun _ => ?_
  refine Post.bind (Post.mono (validateNewMapping_spec hi hsize _ _) ?_ fun _ _ h => h)
  rintro _ _ ⟨rfl, hfits⟩
  exact ⟨_, hfits, rfl, .inr ⟨rfl, rfl⟩, fun _ => .inr rfl, .inl ⟨rfl, .inr rfl, rfl⟩⟩

/-! ## Batches -/

theorem mem_mergeMappings {a : Mapping} :
    ∀ {existing pending : List Mapping},
      a ∈ mergeMappings existing pending ↔ a ∈ existing ∨ a ∈ pending
  | [], pending => by simp [mergeMappings]
  | e :: existing, [] => by simp [mergeMappings]
  | e :: existing, p :: pending => by
    rw [mergeMappings]
    split
    · rw [List.mem_cons, mem_mergeMappings]
      simp only [List.mem_cons]
      tauto
    · rw [List.mem_cons, mem_mergeMappings]
      simp only [List.mem_cons]
      tauto

theorem sorted_mergeMappings :
    ∀ {existing pending : List Mapping}, Sorted existing → Sorted pending →
      (∀ e ∈ existing, 0 < e.size) → (∀ p ∈ pending, 0 < p.size) →
      (∀ p ∈ pending, ∀ e ∈ existing, e.base + e.size ≤ p.base ∨ p.base + p.size ≤ e.base) →
      Sorted (mergeMappings existing pending)
  | [], pending, _, hp, _, _, _ => by simpa [mergeMappings] using hp
  | e :: existing, [], he, _, _, _, _ => by simpa [mergeMappings] using he
  | e :: existing, p :: pending, he, hp, hne, hnp, hfree => by
    have hes := List.pairwise_cons.mp he
    have hps := List.pairwise_cons.mp hp
    have hep := hfree p (by simp) e (by simp)
    have := hne e (by simp)
    have := hnp p (by simp)
    rw [mergeMappings]
    split
    · next hlt =>
      refine List.pairwise_cons.mpr ⟨fun a ha => ?_, sorted_mergeMappings hes.2 hp
        (fun a ha => hne a (List.mem_cons_of_mem _ ha)) hnp
        fun q hq a ha => hfree q hq a (List.mem_cons_of_mem _ ha)⟩
      rcases mem_mergeMappings.mp ha with ha | ha
      · exact hes.1 a ha
      · rcases List.mem_cons.mp ha with rfl | ha
        · omega
        · have := hps.1 a ha
          omega
    · next hlt =>
      refine List.pairwise_cons.mpr ⟨fun a ha => ?_, sorted_mergeMappings he hps.2 hne
        (fun a ha => hnp a (List.mem_cons_of_mem _ ha))
        fun q hq a ha => hfree q (List.mem_cons_of_mem _ hq) a ha⟩
      rcases mem_mergeMappings.mp ha with ha | ha
      · rcases List.mem_cons.mp ha with rfl | ha
        · omega
        · have := hes.1 a ha
          omega
      · exact hps.1 a ha

/-- The request can be mapped : its bytes have room, and `validateNewMapping` lets it through. -/
structure SegmentMapping.Valid (s : AddressSpace) (request : SegmentMapping) : Prop where
  room : request.initialBytes.length ≤ request.size.toNat
  fits : Fits s request.base.toNat request.size.toNat request.permissions
    request.maximumPermissions

theorem validateSegments_spec (hi : Inv s) : ∀ (requests : List SegmentMapping),
    Post (validateSegments requests) s (fun _ s' => s' = s ∧ ∀ r ∈ requests, r.Valid s) (Refused s)
  | [] => Post.pure ⟨rfl, by simp⟩
  | r :: requests => by
    rw [validateSegments]
    refine Post.failIf_bind fun hroom => ?_
    refine Post.bind (Post.mono (validateNewMapping_spec hi r.size.isLt _ _) ?_ fun _ _ h => h)
    rintro _ s' ⟨hs, hfits⟩
    rw [hs]
    refine Post.mono (validateSegments_spec hi requests) ?_ fun _ _ h => h
    rintro _ s' ⟨hs, hrest⟩
    rw [hs]
    refine ⟨rfl, fun q hq => ?_⟩
    rcases List.mem_cons.mp hq with rfl | hq
    · exact ⟨by simpa using hroom, hfits⟩
    · exact hrest q hq

theorem sorted_batch : ∀ {order : List SegmentMapping},
    (∀ r ∈ order, r.base.toNat + r.size.toNat < 2 ^ 64) → batchOverlaps order = false →
    Sorted (order.map SegmentMapping.toMapping)
  | [], _, _ => .nil
  | [r], _, _ => List.pairwise_singleton _ _
  | p :: c :: rest, hbelow, ho => by
    simp only [batchOverlaps, Bool.or_eq_false_iff, decide_eq_false_iff_not] at ho
    have hrec := sorted_batch (fun r hr => hbelow r (List.mem_cons_of_mem _ hr)) ho.2
    have hpc : p.base.toNat + p.size.toNat ≤ c.base.toNat := by
      have := ho.1
      rw [BitVec.lt_def, BitVec.toNat_add, Nat.mod_eq_of_lt (hbelow p (by simp))] at this
      omega
    refine List.pairwise_cons.mpr ⟨fun a ha => ?_, hrec⟩
    rcases List.mem_cons.mp ha with rfl | ha
    · exact hpc
    · have := (List.pairwise_cons.mp hrec).1 a ha
      simp only [SegmentMapping.toMapping] at this ⊢
      omega

/-- A batch was added. -/
structure BatchAdded (s : AddressSpace) (pending : List Mapping) (flag : Bool)
    (s' : AddressSpace) : Prop where
  space : s' = bumped flag { s with mappings := mergeMappings s.mappings pending }
  sorted : Sorted pending
  fits : ∀ p ∈ pending, Fits s p.base p.size p.permissions p.maximumPermissions
  plain : ∀ p ∈ pending, p.fileBytes = none ∧ p.lazyFileTransform = none ∧
    p.readableBytes.size = 0 ∧ (p.bytes.size = 0 ∨ p.bytes.size = p.size) ∧
    (p.maximumPermissions ≠ .none → p.HasBacking)
  counted : ∀ p ∈ pending, p.permissions.execute = true → flag = true

theorem mapSegments_spec (hi : Inv s) (requests : List SegmentMapping) :
    Post (mapSegments requests) s
      (fun _ s' => s' = s ∨ ∃ pending flag, BatchAdded s pending flag s') (Refused s) := by
  unfold mapSegments
  split
  · exact Post.pure (.inl rfl)
  · refine Post.bind (Post.get ?_)
    refine Post.failIf_bind fun _ => ?_
    refine Post.bind (Post.mono (validateSegments_spec hi requests) ?_ fun _ _ h => h)
    rintro _ _ ⟨rfl, hvalid⟩
    refine Post.failIf_bind fun ho => ?_
    have hmem {r : SegmentMapping}
        (hr : r ∈ requests.mergeSort fun a b => decide (a.base.toNat ≤ b.base.toNat)) :
        r ∈ requests := List.mem_mergeSort.mp hr
    refine .inr ⟨_, _, rfl, sorted_batch (fun r hr => (hvalid r (hmem hr)).fits.below) ho, ?_, ?_, ?_⟩
    · rintro _ hp
      obtain ⟨r, hr, rfl⟩ := List.mem_map.mp hp
      exact (hvalid r (hmem hr)).fits
    · rintro _ hp
      obtain ⟨r, hr, rfl⟩ := List.mem_map.mp hp
      refine ⟨rfl, rfl, rfl, segmentBacking_size _ _ _, fun hmax => .inr ?_⟩
      have hmax' : r.maximumPermissions ≠ .none := hmax
      simp [SegmentMapping.toMapping, segmentBacking, hmax', HostVector.ofList]
    · rintro _ hp hx
      obtain ⟨r, hr, rfl⟩ := List.mem_map.mp hp
      exact List.any_eq_true.mpr ⟨r, hmem hr, hx⟩

theorem BatchAdded.inv {pending : List Mapping} {flag : Bool} (hi : Inv s)
    (h : BatchAdded s pending flag s') : Inv s' := by
  obtain ⟨rfl, hsorted, hfits, hplain, -⟩ := h
  refine bumped_inv ⟨?_, ?_, ?_, ?_, ?_⟩
  · intro a ha
    rcases mem_mergeMappings.mp ha with ha | ha
    · exact hi.placed a ha
    · exact ⟨(hfits a ha).nonempty, (hfits a ha).baseAligned, (hfits a ha).sizeAligned,
        (hfits a ha).below, (hfits a ha).within⟩
  · exact sorted_mergeMappings hi.sorted hsorted (fun a ha => (hi.placed a ha).nonempty)
      (fun a ha => (hfits a ha).nonempty) fun p hp => (hfits p hp).free
  · intro a ha
    rcases mem_mergeMappings.mp ha with ha | ha
    · exact (hi.shaped a ha).mono (fun _ _ => rfl) (le_refl _) rfl rfl
    · obtain ⟨h1, h2, h3, h4, -⟩ := hplain a ha
      exact ⟨h4, .inl h3, by simp [h1], by simp [h2]⟩
  · intro a ha b hb f hfa hfb
    rcases mem_mergeMappings.mp ha with ha | ha
    · rcases mem_mergeMappings.mp hb with hb | hb
      · exact hi.shift a ha b hb f hfa hfb
      · simp [(hplain b hb).1] at hfb
    · simp [(hplain a ha).1] at hfa
  · intro slot entry he
    obtain ⟨m, hm, h⟩ := hi.lookup slot entry he
    exact ⟨m, mem_mergeMappings.mpr (.inl hm), h⟩

theorem BatchAdded.backed {pending : List Mapping} {flag : Bool}
    (h : BatchAdded s pending flag s') (hb : Backed s) : Backed s' := by
  obtain ⟨rfl, -, -, hplain, -⟩ := h
  intro a ha
  rcases mem_mergeMappings.mp ha with ha | ha
  · exact hb a ha
  · exact (hplain a ha).2.2.2.2

end AddressSpace

end Rosa
