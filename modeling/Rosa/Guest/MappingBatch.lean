import Mathlib.Data.List.TakeWhile
import Rosa.Guest.Calls
import Rosa.Guest.LookupCache

/-!
# Batches of mappings

`mapSegments` of `guest/MappingBatch.cpp` against `mapSegment`. The batch is checked as a
whole before the first mapping moves, so it is there completely or not at all. The merge
keeps the mappings in order, and an ordered list of disjoint mappings is fixed by its
members : one `mapSegment` after the other, in any order, gives the same list. The batch does
not reset the lookup cache; its entries still describe mappings of the list, and an entry
whose index has moved is passed over, because the base at that index is another one.
-/

namespace Rosa

namespace AddressSpace

open Rosa.Computation

variable {s s' : AddressSpace}

/-! ## What a batch needs -/

/-- Two requests do not meet. -/
def SegmentMapping.Apart (a b : SegmentMapping) : Prop :=
  a.base.toNat + a.size.toNat ≤ b.base.toNat ∨ b.base.toNat + b.size.toNat ≤ a.base.toNat

theorem SegmentMapping.Apart.symm {a b : SegmentMapping} (h : a.Apart b) : b.Apart a :=
  Or.symm h

/-- The requests can be mapped together. -/
structure BatchFits (s : AddressSpace) (requests : List SegmentMapping) : Prop where
  valid : ∀ r ∈ requests, r.Valid s
  apart : requests.Pairwise SegmentMapping.Apart

theorem BatchFits.perm {requests order : List SegmentMapping} (h : BatchFits s requests)
    (hp : order.Perm requests) : BatchFits s order where
  valid r hr := h.valid r (hp.mem_iff.mp hr)
  apart := (hp.pairwise_iff SegmentMapping.Apart.symm).mpr h.apart

theorem le_base_of_lowerBound {base : Nat} {m : Mapping} :
    ∀ {ms : List Mapping}, ms[lowerBound ms base]? = some m → base ≤ m.base
  | [], h => by simp at h
  | a :: ms, h => by
    by_cases ha : a.base < base
    · have hlb : lowerBound (a :: ms) base = lowerBound ms base + 1 := by simp [lowerBound, ha]
      rw [hlb, List.getElem?_cons_succ] at h
      exact le_base_of_lowerBound h
    · have hlb : lowerBound (a :: ms) base = 0 := by simp [lowerBound, ha]
      rw [hlb] at h
      obtain rfl : a = m := by simpa using h
      omega

theorem base_lt_of_lowerBound {base : Nat} {m : Mapping} {ms : List Mapping}
    (h0 : lowerBound ms base ≠ 0) (hm : ms[lowerBound ms base - 1]? = some m) : m.base < base := by
  have hlt : lowerBound ms base - 1 < (ms.takeWhile fun m => decide (m.base < base)).length :=
    Nat.sub_one_lt h0
  have hprefix : ms.takeWhile (fun m => decide (m.base < base)) <+: ms := List.takeWhile_prefix _
  obtain ⟨_, rfl⟩ := List.getElem?_eq_some_iff.mp hm
  rw [← hprefix.getElem hlt]
  simpa using List.mem_takeWhile_imp (List.getElem_mem hlt)

theorem failIf_bind_eq {α : Type} {condition : Bool} {message : String} {f : Unit → Access α}
    (h : condition = false) : (failIf condition message >>= f) s = f () s := by
  subst h
  rfl

/-- A mapping that fits passes the checks. -/
theorem Fits.validateNewMapping_eq (hi : Inv s) {base size : Nat}
    {permissions maximumPermissions : Permission}
    (h : Fits s base size permissions maximumPermissions) :
    validateNewMapping base size permissions maximumPermissions s = (.ok (), s) := by
  have hbelow := h.below
  have hnonempty := h.nonempty
  have hnext : ((s.mappings[lowerBound s.mappings base]?).any fun m =>
      decide (m.base < base + size)) = false := by
    cases hm : s.mappings[lowerBound s.mappings base]? with
    | none => rfl
    | some m =>
      have hfrom := le_base_of_lowerBound hm
      have := h.free m (List.mem_of_getElem? hm)
      have := (hi.placed m (List.mem_of_getElem? hm)).nonempty
      simpa using by omega
  have hprevious : (lowerBound s.mappings base != 0 &&
      (s.mappings[lowerBound s.mappings base - 1]?).any fun m => decide (base < m.limit)) = false := by
    by_cases h0 : lowerBound s.mappings base = 0
    · simp [h0]
    · cases hm : s.mappings[lowerBound s.mappings base - 1]? with
      | none => simp
      | some m =>
        have hfrom := base_lt_of_lowerBound h0 hm
        have := h.free m (List.mem_of_getElem? hm)
        have hlimit := (hi.placed m (List.mem_of_getElem? hm)).limit_eq
        simp only [Option.any_some, Bool.and_eq_false_iff, decide_eq_false_iff_not]
        right
        omega
  have hget : (Computation.get : Access AddressSpace) s = (.ok s, s) := rfl
  unfold validateNewMapping
  rw [failIf_bind_eq (by simp [h.baseAligned, h.sizeAligned]; omega),
    failIf_bind_eq (by simpa using by omega), failIf_bind_eq (by simp [h.within]), bind_ok hget,
    failIf_bind_eq hnext, hprevious]
  rfl

/-! ## One by one -/

/-- `mapSegment` with the fields of a request. -/
def SegmentMapping.map (request : SegmentMapping) : Access Unit :=
  mapSegment request.base.toNat request.size.toNat request.permissions
    request.maximumPermissions request.initialBytes request.label

/-- `mapSegment` for one request after the other. -/
def mapEach : List SegmentMapping → Access Unit
  | [] => pure ()
  | request :: requests => do
    request.map
    mapEach requests

theorem SegmentMapping.Valid.map_eq (hi : Inv s) {r : SegmentMapping} (h : r.Valid s) :
    r.map s = (.ok (), inserted r.toMapping s) := by
  have hroom := h.room
  unfold SegmentMapping.map mapSegment addMapping
  rw [failIf_bind_eq (by simpa using hroom), bind_ok (h.fits.validateNewMapping_eq hi)]
  rfl

theorem SegmentMapping.Valid.added {r : SegmentMapping} (h : r.Valid s) :
    Added s r.toMapping (inserted r.toMapping s) := by
  refine ⟨h.fits, rfl, .inl rfl, fun hmax => .inr ?_, .inl ⟨rfl, segmentBacking_size _ _ _, rfl⟩⟩
  have hmax' : r.maximumPermissions ≠ .none := hmax
  simp [SegmentMapping.toMapping, segmentBacking, hmax', HostVector.ofList]

theorem perm_inserted (m : Mapping) (s : AddressSpace) :
    (inserted m s).mappings.Perm (m :: s.mappings) :=
  List.perm_insertIdx m s.mappings (List.takeWhile_sublist _).length_le

/-- After a request of the batch is mapped, the others still fit. -/
theorem BatchFits.inserted {r : SegmentMapping} {requests : List SegmentMapping}
    (h : BatchFits s (r :: requests)) : BatchFits (inserted r.toMapping s) requests where
  valid q hq := by
    have hvalid := h.valid q (List.mem_cons_of_mem _ hq)
    refine ⟨hvalid.room, { hvalid.fits with free := fun m hm => ?_ }⟩
    rcases List.mem_cons.mp ((perm_inserted _ _).mem_iff.mp hm) with rfl | hm
    · exact (List.pairwise_cons.mp h.apart).1 q hq
    · exact hvalid.fits.free m hm
  apart := (List.pairwise_cons.mp h.apart).2

/-- The spaces agree but for the lookup cache and the count of changes. -/
def SameMappings (s t : AddressSpace) : Prop :=
  { t with mappingLookup := s.mappingLookup, executableVersion := s.executableVersion } = s

/-- The requests of a batch that fits can be mapped one by one. -/
theorem mapEach_returns : ∀ {requests : List SegmentMapping} {s : AddressSpace}, Inv s →
    BatchFits s requests → ∃ t, mapEach requests s = (.ok (), t) ∧ Inv t ∧
      t.mappings.Perm (s.mappings ++ requests.map SegmentMapping.toMapping) ∧
      SameMappings t { s with mappings := t.mappings }
  | [], s, hi, _ => ⟨s, rfl, hi, by simp, rfl⟩
  | r :: requests, s, hi, h => by
    have hvalid := h.valid r (by simp)
    obtain ⟨t, ht, hti, hperm, hsame⟩ := mapEach_returns (hvalid.added.inv hi) h.inserted
    refine ⟨t, ?_, hti, ?_, ?_⟩
    · rw [mapEach, bind_ok (hvalid.map_eq hi), ht]
    · refine hperm.trans (((perm_inserted _ _).append_right _).trans ?_)
      rw [List.cons_append, List.map_cons]
      exact List.perm_middle.symm
    · exact hsame

/-! ## The batch -/

theorem perm_mergeMappings : ∀ (existing pending : List Mapping),
    (mergeMappings existing pending).Perm (existing ++ pending)
  | [], pending => by simp [mergeMappings]
  | e :: existing, [] => by simp [mergeMappings]
  | e :: existing, p :: pending => by
    rw [mergeMappings]
    split
    · exact (perm_mergeMappings existing (p :: pending)).cons e
    · exact ((perm_mergeMappings (e :: existing) pending).cons p).trans List.perm_middle.symm

/-- Ordered lists of the same mappings are equal. -/
theorem Sorted.eq_of_perm {ms ns : List Mapping} (hms : Sorted ms) (hns : Sorted ns)
    (hne : ∀ m ∈ ms, 0 < m.size) (h : ms.Perm ns) : ms = ns := by
  refine List.Perm.eq_of_pairwise (fun a b ha hb hab hba => ?_) hms hns h
  have := hne a ha
  have := hne b (h.mem_iff.mpr hb)
  omega

theorem validateSegments_eq (hi : Inv s) : ∀ {requests : List SegmentMapping},
    (∀ r ∈ requests, r.Valid s) → validateSegments requests s = (.ok (), s)
  | [], _ => rfl
  | r :: requests, h => by
    have hr := h r (by simp)
    have hroom := hr.room
    rw [validateSegments, failIf_bind_eq (by simpa using hroom),
      bind_ok (hr.fits.validateNewMapping_eq hi)]
    exact validateSegments_eq hi fun q hq => h q (List.mem_cons_of_mem _ hq)

/-- Requests in the order of their bases that do not meet pass the check of neighbours. -/
theorem batchOverlaps_eq_false : ∀ {order : List SegmentMapping}, (∀ r ∈ order, r.Valid s) →
    order.Pairwise SegmentMapping.Apart →
    order.Pairwise (fun a b => a.base.toNat ≤ b.base.toNat) → batchOverlaps order = false
  | [], _, _, _ => rfl
  | [_], _, _, _ => rfl
  | p :: c :: rest, hvalid, hapart, hsorted => by
    have hrest := batchOverlaps_eq_false (fun r hr => hvalid r (List.mem_cons_of_mem _ hr))
      (List.pairwise_cons.mp hapart).2 (List.pairwise_cons.mp hsorted).2
    have hpc := (List.pairwise_cons.mp hapart).1 c (by simp)
    have hle := (List.pairwise_cons.mp hsorted).1 c (by simp)
    have hc := (hvalid c (by simp)).fits.nonempty
    have hp := (hvalid p (by simp)).fits.below
    unfold SegmentMapping.Apart at hpc
    rw [batchOverlaps, hrest, Bool.or_false, decide_eq_false_iff_not, BitVec.lt_def,
      BitVec.toNat_add_of_lt hp]
    omega

/-- The requests in the order of their bases. -/
def inOrder (requests : List SegmentMapping) : List SegmentMapping :=
  requests.mergeSort fun a b => a.base.toNat ≤ b.base.toNat

theorem perm_inOrder (requests : List SegmentMapping) : (inOrder requests).Perm requests :=
  List.mergeSort_perm _ _

theorem sorted_inOrder (requests : List SegmentMapping) :
    (inOrder requests).Pairwise fun a b => a.base.toNat ≤ b.base.toNat := by
  have htrans (a b c : SegmentMapping) (hab : decide (a.base.toNat ≤ b.base.toNat) = true)
      (hbc : decide (b.base.toNat ≤ c.base.toNat) = true) :
      decide (a.base.toNat ≤ c.base.toNat) = true := by
    simp only [decide_eq_true_eq] at *
    omega
  have htotal (a b : SegmentMapping) : (decide (a.base.toNat ≤ b.base.toNat) ||
      decide (b.base.toNat ≤ a.base.toNat)) = true := by
    simpa using Nat.le_total _ _
  unfold inOrder
  simpa using List.pairwise_mergeSort htrans htotal requests

/-- The space with a batch. -/
def batched (requests : List SegmentMapping) (s : AddressSpace) : AddressSpace :=
  bumped (requests.any fun request => request.permissions.execute)
    { s with
      mappings := mergeMappings s.mappings ((inOrder requests).map SegmentMapping.toMapping) }

theorem batched_nil (s : AddressSpace) : batched [] s = s := by
  have hmerge : mergeMappings s.mappings [] = s.mappings := by
    cases s.mappings <;> simp [mergeMappings]
  simp [batched, inOrder, hmerge, bumped]

theorem perm_batched (requests : List SegmentMapping) (s : AddressSpace) :
    (batched requests s).mappings.Perm (s.mappings ++ requests.map SegmentMapping.toMapping) :=
  (perm_mergeMappings _ _).trans (((perm_inOrder requests).map _).append_left _)

/-- A batch that is mapped fits; one that is not leaves the space as it was. -/
theorem mapSegments_batched (hi : Inv s) (requests : List SegmentMapping) :
    Post (mapSegments requests) s (fun _ s' => BatchFits s requests ∧ s' = batched requests s)
      (Refused s) := by
  unfold mapSegments
  split
  · next hempty =>
    obtain rfl := List.isEmpty_iff.mp hempty
    exact Post.pure ⟨⟨by simp, .nil⟩, (batched_nil s).symm⟩
  · refine Post.bind (Post.get ?_)
    refine Post.failIf_bind fun _ => ?_
    refine Post.bind (Post.mono (validateSegments_spec hi requests) ?_ fun _ _ h => h)
    rintro _ _ ⟨rfl, hvalid⟩
    refine Post.failIf_bind fun ho => ⟨⟨hvalid, ?_⟩, rfl⟩
    have hsorted : Sorted ((inOrder requests).map SegmentMapping.toMapping) :=
      sorted_batch (fun r hr => (hvalid r ((perm_inOrder _).mem_iff.mp hr)).fits.below) ho
    refine ((perm_inOrder requests).pairwise_iff SegmentMapping.Apart.symm).mp ?_
    exact (List.pairwise_map.mp hsorted).imp fun h => .inl h

/-- A batch that fits is mapped, unless there are more mappings than a `size_t` counts. -/
theorem BatchFits.mapSegments_eq (hi : Inv s) {requests : List SegmentMapping}
    (h : BatchFits s requests) (hcount : s.mappings.length + requests.length < 2 ^ 64) :
    mapSegments requests s = (.ok (), batched requests s) := by
  have hget : (Computation.get : Access AddressSpace) s = (.ok s, s) := rfl
  have horder := h.perm (perm_inOrder requests)
  have hapart := batchOverlaps_eq_false horder.valid horder.apart (sorted_inOrder requests)
  rw [inOrder] at hapart
  unfold mapSegments
  split
  · next hempty =>
    obtain rfl := List.isEmpty_iff.mp hempty
    rw [batched_nil]
    rfl
  · rw [bind_ok hget, failIf_bind_eq (by simpa using by omega),
      bind_ok (validateSegments_eq hi h.valid),
      failIf_bind_eq hapart]
    rfl

theorem inv_batched (hi : Inv s) {requests : List SegmentMapping}
    (hrun : mapSegments requests s = (.ok (), batched requests s)) : Inv (batched requests s) := by
  have := after_inv hi (.mapSegments requests)
  simpa [after, Call.run, hrun] using this

/-- What a batch that is mapped has done. -/
structure MappedTogether (s : AddressSpace) (requests : List SegmentMapping) (s' : AddressSpace) :
    Prop where
  fits : BatchFits s requests
  /-- One by one in any order gives the same mappings, bytes and permissions. -/
  each : ∀ order : List SegmentMapping, order.Perm requests →
    ∃ t, mapEach order s = (.ok (), t) ∧ SameMappings t s'
  /-- Lookups, now and after any further calls, answer from the list of mappings. -/
  lookups : ∀ (later : List Call) (address size : Nat) (required : Permission),
    (find address size required (s'.afterAll later)).1 =
      findResult (s'.afterAll later).mappings address size required
  /-- A lookup in a new mapping finds it. -/
  found : ∀ r ∈ requests, ∀ (address size : Nat) (required : Permission),
    r.base.toNat ≤ address → address < r.base.toNat + r.size.toNat →
    address + size ≤ r.base.toNat + r.size.toNat →
    ∃ i, (find address size required s').1 =
      if r.permissions.has required then .ok (i, r.toMapping)
      else .error (.thrown "guest memory access violates mapping permissions")

theorem find_answer (hi : Inv s) (address size : Nat) (required : Permission) :
    (find address size required s).1 = findResult s.mappings address size required := by
  obtain ⟨s', h, -⟩ := hi.findable.find_eq address size required
  rw [h]

/-- A batch is mapped as a whole, as its requests are one by one, or it throws and nothing has
changed; it throws exactly if the requests do not fit. -/
theorem mapSegments_mappedTogether (calls : List Call) (requests : List SegmentMapping) :
    Post (mapSegments requests) (afterAll {} calls)
      (fun _ s' => MappedTogether (afterAll {} calls) requests s')
      fun _ s' => s' = afterAll {} calls ∧ (¬BatchFits (afterAll {} calls) requests ∨
        2 ^ 64 ≤ (afterAll {} calls).mappings.length + requests.length) := by
  generalize hs : afterAll {} calls = s
  have hi : Inv s := hs ▸ inv_afterAll calls .initial
  have hpost := mapSegments_batched hi requests
  unfold Post at hpost ⊢
  rcases hrun : mapSegments requests s with ⟨e | u, s'⟩
  · rw [hrun] at hpost
    refine ⟨hpost.1, ?_⟩
    by_contra hboth
    obtain ⟨hfits, hcount⟩ := not_or.mp hboth
    rw [(not_not.mp hfits).mapSegments_eq hi (not_le.mp hcount)] at hrun
    cases hrun
  · rw [hrun] at hpost
    obtain ⟨hfits, rfl⟩ := hpost
    have hi' := inv_batched hi hrun
    refine ⟨hfits, fun order hperm => ?_, fun later => ?_, ?_⟩
    · obtain ⟨t, ht, hti, htperm, hsame⟩ := mapEach_returns hi (hfits.perm hperm)
      refine ⟨t, ht, ?_⟩
      have hmappings : t.mappings = (batched requests s).mappings :=
        hti.sorted.eq_of_perm hi'.sorted (fun m hm => (hti.placed m hm).nonempty)
          (htperm.trans (((hperm.map _).append_left _).trans (perm_batched requests s).symm))
      rw [hmappings] at hsame
      exact hsame
    · exact find_answer (inv_afterAll later hi')
    · intro r hr address size required hbase hbelow hlimit
      have hmem : r.toMapping ∈ (batched requests s).mappings :=
        (perm_batched requests s).mem_iff.mpr
          (List.mem_append_right _ (List.mem_map_of_mem hr))
      obtain ⟨i, hindex⟩ := List.getElem?_of_mem hmem
      refine ⟨i, ?_⟩
      rw [find_answer hi', findResult, mappingHolding_of_holds hi'.sorted hindex hbase hbelow hlimit]
      rfl

end AddressSpace

end Rosa
