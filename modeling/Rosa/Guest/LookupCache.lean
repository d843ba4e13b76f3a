import Rosa.Guest.Calls

/-!
# The lookup cache is invisible

`find` answers from a small cache of mappings where it can. Two spaces that differ in the
cache alone (`SameSpace`) give the same answers to every accessor and stay the same, so
an access that is skipped, or made one time more, changes no later result. The relation
carries what a lookup needs of both spaces (`Findable`), which stores and lazy transforms
keep. After every sequence of calls `find` answers as the binary search over the mappings does
(`find_afterAll`).
-/

namespace Rosa

namespace AddressSpace

open Rosa.Computation

/-- The spaces differ in the lookup cache only. -/
structure SameSpace (s t : AddressSpace) : Prop where
  left : Findable s
  right : Findable t
  same : s.invalidateMappingLookup = t.invalidateMappingLookup

variable {s t : AddressSpace}

theorem SameSpace.refl (h : Findable s) : SameSpace s s := ⟨h, h, rfl⟩

theorem SameSpace.symm (h : SameSpace s t) : SameSpace t s := ⟨h.right, h.left, h.same.symm⟩

theorem SameSpace.mappings (h : SameSpace s t) : s.mappings = t.mappings :=
  (congrArg AddressSpace.mappings h.same :)

theorem SameSpace.executableVersion (h : SameSpace s t) :
    s.executableVersion = t.executableVersion :=
  (congrArg AddressSpace.executableVersion h.same :)

theorem SameSpace.files (h : SameSpace s t) : s.files = t.files :=
  (congrArg AddressSpace.files h.same :)

theorem SameSpace.transforms (h : SameSpace s t) : s.transforms = t.transforms :=
  (congrArg AddressSpace.transforms h.same :)

/-- A space with the same list of mappings, up to their contents, and the same cache. -/
theorem Findable.of_shape {s' : AddressSpace} (h : Findable s)
    (hs : List.Forall₂ Mapping.SameShape s.mappings s'.mappings)
    (hl : s'.mappingLookup = s.mappingLookup) : Findable s' where
  placed m' hm' := by
    obtain ⟨i, hi⟩ := List.getElem?_of_mem hm'
    obtain ⟨hlt, rfl⟩ := List.getElem?_eq_some_iff.mp hi
    have hlt' : i < s.mappings.length := by rw [hs.length_eq]; exact hlt
    exact (hs.get hlt' hlt).placed (h.placed _ (List.getElem_mem hlt'))
  sorted := by
    refine List.pairwise_iff_getElem.mpr fun i j hi hj hij => ?_
    have hi' : i < s.mappings.length := by rw [hs.length_eq]; exact hi
    have hj' : j < s.mappings.length := by rw [hs.length_eq]; exact hj
    have hold := List.pairwise_iff_getElem.mp h.sorted i j hi' hj' hij
    have ha := hs.get hi' hi
    have hb := hs.get hj' hj
    simp only [List.get_eq_getElem] at ha hb
    rw [ha.base, ha.size, hb.base]
    exact hold
  lookup slot entry he := by
    obtain ⟨m, hm, hbase, hlimit⟩ := h.lookup slot entry (hl ▸ he)
    obtain ⟨i, hi⟩ := List.getElem?_of_mem hm
    obtain ⟨hlt, rfl⟩ := List.getElem?_eq_some_iff.mp hi
    have hlt' : i < s'.mappings.length := by rw [← hs.length_eq]; exact hlt
    have hshape := hs.get hlt hlt'
    simp only [List.get_eq_getElem] at hshape
    refine ⟨s'.mappings[i], List.getElem_mem hlt', hshape.base.trans hbase, ?_⟩
    rw [← hlimit, Mapping.limit, Mapping.limit, hshape.base, hshape.size]

/-! ## Lookups -/

/-- What `find` answers. -/
def findResult (mappings : List Mapping) (address size : Nat) (required : Permission) :
    Except AccessError (Nat × Mapping) :=
  match mappingHolding mappings address size with
  | some (i, m) =>
    if m.permissions.has required then .ok (i, m)
    else .error (.thrown "guest memory access violates mapping permissions")
  | none => .error (.thrown "guest memory access is unmapped")

theorem Findable.find_eq (h : Findable s) (address size : Nat) (required : Permission) :
    ∃ s', find address size required s = (findResult s.mappings address size required, s') ∧
      SameSpace s s' := by
  have hget : (Computation.get : Access AddressSpace) s = (.ok s, s) := rfl
  unfold find findResult
  rw [bind_ok hget]
  cases hc : s.cachedMapping address size with
  | some found =>
    obtain ⟨i, m⟩ := found
    rw [h.cachedMapping_eq hc]
    dsimp only
    cases hp : m.permissions.has required with
    | true => exact ⟨s, rfl, .refl h⟩
    | false => exact ⟨s, rfl, .refl h⟩
  | none =>
    cases hm : mappingHolding s.mappings address size with
    | none => exact ⟨s, rfl, .refl h⟩
    | some found =>
      obtain ⟨i, m⟩ := found
      dsimp only
      cases hp : m.permissions.has required with
      | true =>
        refine ⟨_, rfl, h, ⟨h.placed, h.sorted, fun slot entry he => ?_⟩, rfl⟩
        simp only [Function.update_apply] at he
        split at he
        · cases he
          exact ⟨m, List.mem_of_getElem? (mappingHolding_index hm), rfl, rfl⟩
        · exact h.lookup slot entry he
      | false => exact ⟨s, rfl, .refl h⟩

theorem SameSpace.trans {u : AddressSpace} (h : SameSpace s t) (h' : SameSpace t u) :
    SameSpace s u := ⟨h.left, h'.right, h.same.trans h'.same⟩

/-- What a lookup that answers has found. -/
theorem findResult_ok (h : Findable s) {address size i : Nat} {required : Permission} {m : Mapping}
    (hsize : 0 < size) (hr : findResult s.mappings address size required = .ok (i, m)) :
    Found s address size required i m := by
  unfold findResult at hr
  split at hr
  · next j m' hm =>
    split at hr
    · next hp =>
      cases hr
      obtain ⟨h1, h2, h3⟩ := (mappingHolding_iff h.sorted hsize).mp hm
      exact ⟨h1, h2, h3, hp⟩
    · cases hr
  · cases hr

/-- Both spaces give the answer, and stay the same. -/
theorem find_both (h : SameSpace s t) {address size : Nat} (hsize : 0 < size)
    (required : Permission) :
    Both (find address size required) (find address size required) s t
      (fun found s' t' => SameSpace s' t' ∧ Found s' address size required found.1 found.2)
      SameSpace := by
  obtain ⟨s', hs, hss⟩ := h.left.find_eq address size required
  obtain ⟨t', ht, htt⟩ := h.right.find_eq address size required
  have hst := hss.symm.trans (h.trans htt)
  rw [← h.mappings] at ht
  cases hr : findResult s.mappings address size required with
  | error e => exact .error (hr ▸ hs) (hr ▸ ht) hst
  | ok found =>
    refine .ok (hr ▸ hs) (hr ▸ ht) ⟨hst, ?_⟩
    rw [hss.mappings] at hr
    exact findResult_ok hss.right hsize hr

/-- The invariant does not depend on what the cache holds. -/
theorem SameSpace.inv (h : SameSpace s t) (hi : Inv s) : Inv t := by
  have hsame := h.same
  simp only [invalidateMappingLookup, AddressSpace.mk.injEq] at hsame
  obtain ⟨h1, -, -, h4, h5, h6, h7⟩ := hsame
  refine hi.of_sameShape ⟨?_, h5.symm, h7.symm, fun f => by rw [h4], fun f => ?_⟩ h.right.lookup
  · rw [← h1]
    exact List.forall₂_same.mpr fun m _ => .refl m
  · rw [h6]
    exact ⟨rfl, rfl, rfl, rfl⟩

/-! ## Reads -/

theorem forall₂_sameShape_refl (ms : List Mapping) : List.Forall₂ Mapping.SameShape ms ms :=
  List.forall₂_same.mpr fun m _ => .refl m

theorem applyTransform_same (h : SameSpace s t) (file : FileId) (transform : TransformId)
    (page : Nat) :
    SameSpace (applyTransform file transform page s) (applyTransform file transform page t) where
  left := h.left.of_shape (forall₂_sameShape_refl _) rfl
  right := h.right.of_shape (forall₂_sameShape_refl _) rfl
  same := by
    have hsame := h.same
    simp only [invalidateMappingLookup, AddressSpace.mk.injEq] at hsame
    obtain ⟨h1, -, h3, h4, h5, h6, h7⟩ := hsame
    simp only [applyTransform, invalidateMappingLookup, h1, h3, h4, h5, h6, h7]

/-- The spaces stay the same and keep their mappings. -/
def KeepsMappings (ms : List Mapping) (s t : AddressSpace) : Prop :=
  SameSpace s t ∧ s.mappings = ms

theorem failWith_both {ms : List Mapping} (h : KeepsMappings ms s t) (message : Option String) :
    Both (failWith message) (failWith message) s t (fun _ => KeepsMappings ms) SameSpace := by
  cases message with
  | none => exact .pure h
  | some message => exact .raise h.1

theorem checkBacking_both {ms : List Mapping} (h : KeepsMappings ms s t) (accessEnd size : Nat) :
    Both (checkBacking accessEnd size) (checkBacking accessEnd size) s t
      (fun _ => KeepsMappings ms) SameSpace :=
  .raiseIf (fun _ => h.1) fun _ => h

theorem failIf_both {ms : List Mapping} (h : KeepsMappings ms s t) (condition : Bool)
    (message : String) :
    Both (failIf condition message) (failIf condition message) s t
      (fun _ => KeepsMappings ms) SameSpace :=
  .raiseIf (fun _ => h.1) fun _ => h

theorem materializePages_both (file : FileId) (transform : TransformId) {ms : List Mapping} :
    ∀ (count page : Nat) {s t : AddressSpace}, KeepsMappings ms s t →
      Both (materializePages file transform count page) (materializePages file transform count page)
        s t (fun _ => KeepsMappings ms) SameSpace
  | 0, _, _, _, h => .pure h
  | count + 1, page, s, t, h => by
    rw [materializePages]
    refine .get_bind ?_
    rw [← h.1.transforms, ← h.1.files]
    dsimp only
    split
    · exact materializePages_both file transform count (page + 1) h
    · refine .bind (checkBacking_both h _ _) fun _ s₁ t₁ h₁ => ?_
      refine .bind (R := fun _ => KeepsMappings ms)
        (.modify ⟨applyTransform_same h₁.1 _ _ _, h₁.2⟩) fun _ s₂ t₂ h₂ => ?_
      refine .bind (failWith_both h₂ _) fun _ s₃ t₃ h₃ => ?_
      exact materializePages_both file transform count (page + 1) h₃

theorem materializeFileBytes_both {ms : List Mapping} (h : KeepsMappings ms s t) (m : Mapping)
    (offset size : Nat) :
    Both (materializeFileBytes m offset size) (materializeFileBytes m offset size) s t
      (fun _ => KeepsMappings ms) SameSpace := by
  unfold materializeFileBytes
  split
  · unfold materialize
    refine .get_bind ?_
    rw [← h.1.transforms]
    dsimp only
    split
    · exact .pure h
    · exact .bind (failIf_both h _ _) fun _ _ _ h' => materializePages_both _ _ _ _ h'
  · exact .pure h

theorem loadChunk_both {ms : List Mapping} (h : KeepsMappings ms s t) (m : Mapping)
    (offset size : Nat) :
    Both (loadChunk m offset size) (loadChunk m offset size) s t (fun _ => KeepsMappings ms)
      SameSpace := by
  unfold loadChunk
  split
  · next file _ =>
    refine .bind (materializeFileBytes_both h _ _ _) fun _ s₁ t₁ h₁ => .get_bind ?_
    rw [← h₁.1.files]
    exact .bind (checkBacking_both h₁ _ _) fun _ _ _ h₂ => .pure h₂
  · exact .bind (checkBacking_both h _ _) fun _ _ _ h₁ => .pure h₁

theorem checkReadable_both {ms : List Mapping} (h : KeepsMappings ms s t) (m : Mapping)
    (offset size : Nat) :
    Both (checkReadable m offset size) (checkReadable m offset size) s t
      (fun _ => KeepsMappings ms) SameSpace := by
  unfold checkReadable
  split
  · exact .pure h
  · exact .bind (checkBacking_both h _ _) fun _ _ _ h₁ => failIf_both h₁ _ _

theorem readFrom_both : ∀ (fuel cursor remaining : Nat) {s t : AddressSpace}, SameSpace s t →
    Both (readFrom fuel cursor remaining) (readFrom fuel cursor remaining) s t
      (fun _ => SameSpace) SameSpace
  | 0, _, _, _, _, h => .pure h
  | fuel + 1, cursor, remaining, s, t, h => by
    rw [readFrom]
    split
    · exact .pure h
    · refine .bind (find_both h Nat.one_pos _) fun found s₁ t₁ h₁ => ?_
      refine .bind (checkReadable_both ⟨h₁.1, rfl⟩ _ _ _) fun _ s₂ t₂ h₂ => ?_
      refine .bind (loadChunk_both h₂ _ _ _) fun bytes s₃ t₃ h₃ => ?_
      exact .bind (readFrom_both fuel _ _ h₃.1) fun rest _ _ h₄ => .pure h₄

/-- Reads do not see the cache. -/
theorem readWord_both (h : SameSpace s t) (address size : Nat) :
    Both (readWord address size) (readWord address size) s t (fun _ => SameSpace) SameSpace := by
  unfold readWord
  refine .bind (find_both h Nat.one_pos _) fun found s₁ t₁ h₁ => ?_
  dsimp only
  split
  · exact (loadChunk_both ⟨h₁.1, rfl⟩ _ _ _).mono (fun _ _ _ h₂ => h₂.1) fun _ _ h₂ => h₂
  · exact readFrom_both _ _ _ h₁.1

/-! ## Writes -/

theorem storeBytes_same (h : SameSpace s t) {i offset : Nat} {m : Mapping} {data : List Byte}
    (hm : s.mappings[i]? = some m) :
    SameSpace (storeBytes i m offset data s) (storeBytes i m offset data t) where
  left := h.left.of_shape (storeBytes_sameShape hm).mappings storeBytes_mappingLookup
  right := h.right.of_shape (storeBytes_sameShape (h.mappings ▸ hm)).mappings
    storeBytes_mappingLookup
  same := by
    have hsame := h.same
    simp only [invalidateMappingLookup, AddressSpace.mk.injEq] at hsame
    obtain ⟨h1, -, h3, h4, h5, h6, h7⟩ := hsame
    unfold storeBytes
    split <;> simp only [invalidateMappingLookup, h1, h3, h4, h5, h6, h7]

theorem storeChunk_both (h : SameSpace s t) {i : Nat} {m : Mapping}
    (hm : s.mappings[i]? = some m) (offset : Nat) (data : List Byte) :
    Both (storeChunk i m offset data) (storeChunk i m offset data) s t (fun _ => SameSpace)
      SameSpace := by
  unfold storeChunk
  refine .get_bind ?_
  rw [← h.files]
  dsimp only
  have hstore {u v : AddressSpace} (hk : KeepsMappings s.mappings u v) :
      Both (Computation.modify (storeBytes i m offset data) : Access Unit)
        (Computation.modify (storeBytes i m offset data)) u v (fun _ => SameSpace) SameSpace :=
    .modify (storeBytes_same hk.1 (hk.2 ▸ hm))
  split
  · exact .bind (checkBacking_both ⟨h, rfl⟩ _ _) fun _ _ _ h₁ => hstore h₁
  · exact .bind (checkBacking_both ⟨h, rfl⟩ _ _) fun _ _ _ h₁ => hstore h₁

theorem bumped_same (h : SameSpace s t) (flag : Bool) : SameSpace (bumped flag s) (bumped flag t) where
  left := ⟨h.left.placed, h.left.sorted, h.left.lookup⟩
  right := ⟨h.right.placed, h.right.sorted, h.right.lookup⟩
  same := by
    have hsame := h.same
    simp only [invalidateMappingLookup, AddressSpace.mk.injEq] at hsame
    obtain ⟨h1, -, h3, h4, h5, h6, h7⟩ := hsame
    simp only [bumped, invalidateMappingLookup, h1, h3, h4, h5, h6, h7]

theorem validateWrite_both : ∀ (fuel cursor remaining : Nat) {s t : AddressSpace}, SameSpace s t →
    Both (validateWrite fuel cursor remaining) (validateWrite fuel cursor remaining) s t
      (fun _ => SameSpace) SameSpace
  | 0, _, _, _, _, h => .pure h
  | fuel + 1, cursor, remaining, s, t, h => by
    rw [validateWrite]
    split
    · exact .pure h
    · refine .bind (find_both h Nat.one_pos _) fun found s₁ t₁ h₁ => ?_
      refine .bind (materializeFileBytes_both ⟨h₁.1, rfl⟩ _ _ _) fun _ s₂ t₂ h₂ => ?_
      exact .bind (validateWrite_both fuel _ _ h₂.1) fun rest _ _ h₃ => .pure h₃

theorem copyBytes_both : ∀ (fuel cursor : Nat) (data : List Byte) {s t : AddressSpace},
    SameSpace s t →
    Both (copyBytes fuel cursor data) (copyBytes fuel cursor data) s t (fun _ => SameSpace)
      SameSpace
  | 0, _, _, _, _, h => .pure h
  | fuel + 1, cursor, data, s, t, h => by
    rw [copyBytes]
    split
    · exact .pure h
    · refine .bind (find_both h Nat.one_pos _) fun found s₁ t₁ h₁ => ?_
      refine .bind (storeChunk_both h₁.1 h₁.2.index _ _) fun _ s₂ t₂ h₂ => ?_
      exact copyBytes_both fuel _ _ h₂

/-- Writes do not see the cache. -/
theorem writeBytes_both (h : SameSpace s t) (address : Nat) (data : List Byte) :
    Both (writeBytes address data) (writeBytes address data) s t (fun _ => SameSpace)
      SameSpace := by
  unfold writeBytes
  split
  · exact .pure h
  · refine .bind (find_both h Nat.one_pos _) fun found s₁ t₁ h₁ => ?_
    dsimp only
    split
    · refine .bind (materializeFileBytes_both ⟨h₁.1, rfl⟩ _ _ _) fun _ s₂ t₂ h₂ => ?_
      refine .bind (storeChunk_both h₂.1 (h₂.2 ▸ h₁.2.index) _ _) fun _ s₃ t₃ h₃ => ?_
      exact .modify (bumped_same h₃ _)
    · refine .bind (validateWrite_both _ _ _ h₁.1) fun changes s₂ t₂ h₂ => ?_
      refine .bind (copyBytes_both _ _ _ h₂) fun _ s₃ t₃ h₃ => ?_
      exact .modify (bumped_same h₃ _)

/-! ## The search without the cache -/

/-- `std::upper_bound` as it searches : `first` is where the range that is left begins, `count`
how long it is. -/
def upperBoundFrom (mappings : List Mapping) (value : Nat) : Nat → Nat → Nat → Nat
  | 0, first, _ => first
  | fuel + 1, first, count =>
    if count = 0 then first
    else
      let half := count / 2
      match mappings[first + half]? with
      | some m =>
        if value < m.base then upperBoundFrom mappings value fuel first half
        else upperBoundFrom mappings value fuel (first + half + 1) (count - (half + 1))
      | none => first

/-- `find` with the binary search alone. -/
def findUncached (mappings : List Mapping) (address size : Nat) (required : Permission) :
    Except AccessError (Nat × Mapping) :=
  match upperBoundFrom mappings address mappings.length 0 mappings.length with
  | 0 => .error (.thrown "guest memory access is unmapped")
  | i + 1 =>
    match mappings[i]? with
    | some m =>
      if rangeContains m.base m.size address size then
        if m.permissions.has required then .ok (i, m)
        else .error (.thrown "guest memory access violates mapping permissions")
      else .error (.thrown "guest memory access is unmapped")
    | none => .error (.thrown "guest memory access is unmapped")

variable {ms : List Mapping} {m : Mapping} {i value : Nat}

/-- In a sorted list the mappings that start at or below a value are the first ones. -/
theorem lt_upperBound_iff (hsorted : Sorted ms) (hm : ms[i]? = some m) :
    i < upperBound ms value ↔ m.base ≤ value := by
  induction ms generalizing i with
  | nil => simp at hm
  | cons a ms ih =>
    have htail := (List.pairwise_cons.mp hsorted).2
    by_cases ha : a.base ≤ value
    · simp only [upperBound, List.takeWhile_cons, ha, decide_true, if_true, List.length_cons]
      cases i with
      | zero =>
        obtain rfl : a = m := by simpa using hm
        simp [ha]
      | succ i => rw [Nat.succ_lt_succ_iff, ← ih htail (by simpa using hm), upperBound]
    · simp only [upperBound, List.takeWhile_cons, ha, decide_false, Bool.false_eq_true, if_false,
        List.length_nil, Nat.not_lt_zero, false_iff]
      cases i with
      | zero =>
        obtain rfl : a = m := by simpa using hm
        exact ha
      | succ i =>
        -- a later mapping starts after the end of the first
        have := (List.pairwise_cons.mp hsorted).1 m (List.mem_of_getElem? (by simpa using hm))
        omega

theorem upperBoundFrom_eq (hsorted : Sorted ms) : ∀ (fuel first count : Nat), count ≤ fuel →
    first + count ≤ ms.length → first ≤ upperBound ms value →
    upperBound ms value ≤ first + count →
      upperBoundFrom ms value fuel first count = upperBound ms value
  | 0, first, count, hfuel, _, h1, h2 => by
    rw [upperBoundFrom]
    omega
  | fuel + 1, first, count, hfuel, hlength, h1, h2 => by
    rw [upperBoundFrom]
    split
    · omega
    · next hcount =>
      have hmiddle : first + count / 2 < ms.length := by omega
      have hm : ms[first + count / 2]? = some ms[first + count / 2] :=
        List.getElem?_eq_getElem hmiddle
      have hside : first + count / 2 < upperBound ms value ↔
          ms[first + count / 2].base ≤ value := lt_upperBound_iff hsorted hm
      dsimp only
      rw [hm]
      dsimp only
      split
      · next hbelow =>
        exact upperBoundFrom_eq hsorted fuel _ _ (by omega) (by omega) h1 (by omega)
      · next habove =>
        exact upperBoundFrom_eq hsorted fuel _ _ (by omega) (by omega)
          (by have := hside.mpr (by omega); omega) (by omega)

theorem findUncached_eq (hsorted : Sorted ms) (address size : Nat) (required : Permission) :
    findUncached ms address size required = findResult ms address size required := by
  have hbound : upperBound ms address ≤ ms.length :=
    (List.takeWhile_sublist _).length_le
  unfold findUncached findResult mappingHolding
  rw [upperBoundFrom_eq hsorted _ _ _ (le_refl _) (by omega) (Nat.zero_le _) (by omega)]
  cases upperBound ms address with
  | zero => rfl
  | succ i =>
    dsimp only
    cases ms[i]? with
    | none => rfl
    | some m =>
      simp only [Option.bind_some]
      cases rangeContains m.base m.size address size <;> rfl

/-- After every sequence of calls `find` answers as the binary search over the mappings, and
leaves all but the cache as it is. -/
theorem find_afterAll (calls : List Call) (address size : BitVec 64) (required : Permission) :
    ∃ s', find address.toNat size.toNat required (afterAll {} calls) =
        (findUncached (afterAll {} calls).mappings address.toNat size.toNat required, s') ∧
      SameSpace (afterAll {} calls) s' := by
  have hi : Inv (afterAll {} calls) := inv_afterAll calls .initial
  rw [findUncached_eq hi.sorted]
  exact hi.findable.find_eq _ _ _

end AddressSpace

end Rosa
