import Rosa.Guest.Invariant

/-!
# Accesses to guest memory

The specification of every accessor, over the changes of `Touch`. A reading access
(`ReadSpec`) stores nothing; a writing access (`WriteSpec`) stores into the mappings it
was asked to write and counts the write if one of them is executable, and if it throws it
has stored nothing. In a space that is `Backed` no access indexes outside its backing.
-/

namespace Rosa

namespace AddressSpace

open Rosa.Computation

variable {s s' s'' : AddressSpace} {allowed allowed' : Mapping → Prop}

/-! ## Accesses that read -/

variable {α β : Type}

/-- From `s` the access stores nothing, and indexes no backing out of bounds if the space
is backed; it returns with `R`. -/
def ReadSpec (s : AddressSpace) (x : Access α) (R : α → AddressSpace → Prop) : Prop :=
  Post x s (fun a s' => Touches nowhere s s' ∧ R a s')
    fun e s' => Touches nowhere s s' ∧ (Backed s → e ≠ .outsideBacking)

theorem ReadSpec.bind {x : Access β} {f : β → Access α} {R : β → AddressSpace → Prop}
    {R' : α → AddressSpace → Prop} (hx : ReadSpec s x R)
    (hf : ∀ b s', Touches nowhere s s' → R b s' → ReadSpec s' (f b) R') :
    ReadSpec s (x >>= f) R' := by
  refine Post.bind (Post.mono hx ?_ fun _ _ h => h)
  rintro b s' ⟨ht, hr⟩
  refine Post.mono (hf b s' ht hr) ?_ ?_
  · rintro a s'' ⟨ht', hr'⟩
    exact ⟨ht.trans ht', hr'⟩
  · rintro e s'' ⟨ht', he⟩
    exact ⟨ht.trans ht', fun hb => he (ht.backed hb)⟩

theorem ReadSpec.pure {a : α} {R : α → AddressSpace → Prop} (h : R a s) :
    ReadSpec s (Pure.pure a) R := Post.pure ⟨.refl, h⟩

theorem ReadSpec.fail {message : String} {R : α → AddressSpace → Prop} :
    ReadSpec s (fail message) R := Post.raise ⟨.refl, fun _ => by simp⟩

section

variable {R : α → AddressSpace → Prop}

theorem ReadSpec.get_bind {f : AddressSpace → Access α} (h : ReadSpec s (f s) R) :
    ReadSpec s (Computation.get >>= f) R := h

theorem ReadSpec.failIf_bind {condition : Bool} {message : String} {f : Unit → Access α}
    (h : condition = false → ReadSpec s (f ()) R) :
    ReadSpec s (failIf condition message >>= f) R := by
  cases condition with
  | false => exact h rfl
  | true => exact ⟨.refl, fun _ => by simp⟩

theorem ReadSpec.failIf {condition : Bool} {message : String} {R : Unit → AddressSpace → Prop}
    (h : condition = false → R () s) : ReadSpec s (failIf condition message) R :=
  Post.raiseIf (fun _ => ⟨.refl, fun _ => by simp⟩) fun hc => ⟨.refl, h hc⟩

theorem ReadSpec.failWith_bind {message : Option String} {f : Unit → Access α}
    (h : message = none → ReadSpec s (f ()) R) : ReadSpec s (failWith message >>= f) R := by
  cases message with
  | none => exact h rfl
  | some m => exact ⟨.refl, fun _ => by simp⟩

/-- A bounds check that a backed space passes. -/
theorem ReadSpec.checkBacking_bind {accessEnd size : Nat} {f : Unit → Access α}
    (hb : Backed s → accessEnd ≤ size) (h : accessEnd ≤ size → ReadSpec s (f ()) R) :
    ReadSpec s (checkBacking accessEnd size >>= f) R := by
  by_cases hc : accessEnd ≤ size
  · have : checkBacking accessEnd size = Pure.pure () := by
      simp [checkBacking, raiseIf, hc]
    rw [this]
    exact h hc
  · have : checkBacking accessEnd size = raise .outsideBacking := by
      simp [checkBacking, raiseIf, Nat.lt_of_not_le hc]
    rw [this]
    exact ⟨.refl, fun hbs => absurd (hb hbs) hc⟩

/-- A change of the state that stores nothing. -/
theorem ReadSpec.modify_bind {g : AddressSpace → AddressSpace} {f : Unit → Access α}
    (ht : Touch nowhere s (g s)) (h : ReadSpec (g s) (f ()) R) :
    ReadSpec s (Computation.modify g >>= f) R := by
  refine Post.bind (Post.modify ?_)
  refine Post.mono h ?_ ?_
  · rintro a s' ⟨ht', hr⟩
    exact ⟨.trans (.single ht) ht', hr⟩
  · rintro e s' ⟨ht', he⟩
    exact ⟨.trans (.single ht) ht', fun hb => he (Touches.backed (.single ht) hb)⟩

end

/-- The access returns `R`, in any state it reaches. -/
theorem ReadSpec.mono {x : Access α} {R R' : α → AddressSpace → Prop} (hx : ReadSpec s x R)
    (h : ∀ a s', Touches nowhere s s' → R a s' → R' a s') : ReadSpec s x R' :=
  Post.mono hx (fun a s' hr => ⟨hr.1, h a s' hr.1 hr.2⟩) fun _ _ he => he

/-- What a lookup finds. -/
structure Found (s : AddressSpace) (address size : Nat) (required : Permission) (i : Nat)
    (m : Mapping) : Prop where
  index : s.mappings[i]? = some m
  base : m.base ≤ address
  limit : address + size ≤ m.base + m.size
  permitted : m.permissions.has required = true

theorem Found.mem {address size i : Nat} {required : Permission} {m : Mapping}
    (h : Found s address size required i m) : m ∈ s.mappings := List.mem_of_getElem? h.index

/-- A chunk of an access : it begins at the cursor and ends with the range or the mapping, and the
cursor behind it is not reduced. -/
structure ChunkAt (m : Mapping) (cursor remaining chunk : Nat) : Prop where
  base : m.base ≤ cursor
  fits : cursor - m.base + chunk ≤ m.size
  le : chunk ≤ remaining
  pos : 0 < remaining → 0 < chunk
  below : cursor + chunk < 2 ^ 64

theorem Found.chunk {cursor remaining chunk i : Nat} {required : Permission} {m : Mapping}
    (h : Found s cursor 1 required i m) (hi : Inv s)
    (hchunk : min remaining (m.size - (cursor - m.base)) = chunk) :
    ChunkAt m cursor remaining chunk := by
  have hbase := h.base
  have hlimit := h.limit
  have hbelow := (hi.placed m h.mem).below
  exact ⟨hbase, by omega, by omega, by omega, by omega⟩

theorem find_spec (hi : Inv s) {address size : Nat} (hsize : 0 < size) (required : Permission) :
    ReadSpec s (find address size required) fun found _ =>
      Found s address size required found.1 found.2 := by
  have hfound {i : Nat} {m : Mapping} (hm : mappingHolding s.mappings address size = some (i, m))
      (hp : (!m.permissions.has required) = false) : Found s address size required i m := by
    obtain ⟨h1, h2, h3⟩ := (mappingHolding_iff hi.sorted hsize).mp hm
    exact ⟨h1, h2, h3, by simpa using hp⟩
  unfold find
  refine .get_bind ?_
  cases hc : s.cachedMapping address size with
  | some found =>
    refine .failIf_bind fun hp => .pure ?_
    exact hfound (hi.findable.cachedMapping_eq hc) hp
  | none =>
    cases hm : mappingHolding s.mappings address size with
    | none => exact .fail
    | some found =>
      refine .failIf_bind fun hp => ?_
      have hf := hfound hm hp
      exact .modify_bind (.lookup hf.index) (.pure hf)

/-- A lookup of a range that is there does not fail. -/
theorem find_found (hi : Inv s) {address size i : Nat} {required : Permission} {m : Mapping}
    (hsize : 0 < size) (hf : Found s address size required i m) :
    Post (find address size required) s (fun found s' => found = (i, m) ∧ Touches nowhere s s')
      fun _ _ => False := by
  have hm : mappingHolding s.mappings address size = some (i, m) :=
    (mappingHolding_iff hi.sorted hsize).mpr ⟨hf.index, hf.base, hf.limit⟩
  have hp : (!m.permissions.has required) = false := by simp [hf.permitted]
  unfold find
  refine Post.bind (Post.get ?_)
  cases hc : s.cachedMapping address size with
  | some found =>
    obtain rfl : found = (i, m) := by simpa [hm] using (hi.findable.cachedMapping_eq hc).symm
    refine Post.bind (Post.raiseIf (by simp [hp]) fun _ => Post.pure ⟨rfl, .refl⟩)
  | none =>
    simp only [hm]
    refine Post.bind (Post.raiseIf (by simp [hp]) fun _ => Post.bind (Post.modify ?_))
    exact Post.pure ⟨rfl, .single (.lookup hf.index)⟩

/-- The pages of a mapping's bytes are transformed in turn. -/
theorem materializePages_spec {m : Mapping} {file : FileId} {t : TransformId}
    (hfile : m.fileBytes = some file) (ht : m.lazyFileTransform = some t) :
    ∀ (count page : Nat) {s : AddressSpace}, Inv s → m ∈ s.mappings →
      (∀ p, page ≤ p → p < page + count → ∃ offset < m.size, (s.transforms t).pageOf m offset = p) →
      ReadSpec s (materializePages file t count page) fun _ s' =>
        ∀ p, page ≤ p → p < page + count → (s'.transforms t).transformedPages p = true
  | 0, page, s, _, _, _ => .pure (by omega)
  | count + 1, page, s, hi, hm, hpages => by
    have hrest {s' : AddressSpace} (hs : Touches nowhere s s')
        (hp : (s'.transforms t).transformedPages page = true) :
        ReadSpec s' (materializePages file t count (page + 1)) fun _ s'' =>
          ∀ p, page ≤ p → p < page + (count + 1) →
            (s''.transforms t).transformedPages p = true := by
      refine ReadSpec.mono (materializePages_spec hfile ht count (page + 1) (hs.inv hi)
        (hs.mappings_eq ▸ hm) ?_) ?_
      · intro p h1 h2
        obtain ⟨offset, ho, hpo⟩ := hpages p (by omega) (by omega)
        obtain ⟨e1, -, e3, -⟩ := hs.sameShape.transforms t
        exact ⟨offset, ho, by rw [LazyFilePageTransform.pageOf, e1, e3]; exact hpo⟩
      · intro _ s'' hs'' h p h1 h2
        rcases Nat.eq_or_lt_of_le h1 with rfl | h1
        · exact hs''.transformedPages hp
        · exact h p h1 (by omega)
    obtain ⟨offset, ho, rfl⟩ := hpages page (le_refl _) (by omega)
    obtain ⟨-, -, -, -, f, hf, hsize⟩ := (hi.shaped m hm).lazyTransform t ht
    obtain rfl : f = file := by simpa [hf] using hfile
    rw [materializePages]
    refine .get_bind ?_
    dsimp only
    split
    · next hdone => exact hrest .refl hdone
    · next hnew =>
      refine .checkBacking_bind (fun _ => hsize) fun _ => ?_
      have htouch : Touch nowhere s _ := .transform hm hfile ht ho (by simpa using hnew)
      refine .modify_bind htouch (.failWith_bind fun hok => ?_)
      refine hrest (.single htouch) ?_
      simp [applyTransform, hok]

/-- The bytes of a mapping, by offset, as they are in the backing. -/
def contents (s : AddressSpace) (m : Mapping) : Nat → Byte :=
  match m.fileBytes with
  | some file => fun offset => (s.files file).data (m.fileDataOffset + offset)
  | none => m.bytes.get

/-- Every page between the first and the last byte of a range has a byte of the range. -/
theorem exists_byte_on_page {first last size page : Nat} (hle : first ≤ last) (hsize : 0 < size)
    (h1 : first / size ≤ page) (h2 : page ≤ last / size) :
    ∃ b, first ≤ b ∧ b ≤ last ∧ b / size = page := by
  have hlast : page * size ≤ last := (Nat.le_div_iff_mul_le hsize).mp h2
  rcases Nat.lt_or_ge first (page * size) with h | h
  · exact ⟨page * size, h.le, hlast, Nat.mul_div_cancel _ hsize⟩
  · exact ⟨first, le_refl _, hle, le_antisymm h1 ((Nat.le_div_iff_mul_le hsize).mpr h)⟩

/-- The pages that `materialize` goes through are the pages of the bytes of the range. -/
theorem exists_offset_on_page {t : LazyFilePageTransform} {m : Mapping} {offset size page : Nat}
    (hpage : 0 < t.pageSize) (hlow : t.dataOffset ≤ m.fileDataOffset) (hsize : 0 < size)
    (h1 : (m.fileDataOffset + offset - t.dataOffset) / t.pageSize ≤ page)
    (h2 : page < (m.fileDataOffset + offset - t.dataOffset) / t.pageSize +
      ((m.fileDataOffset + offset - t.dataOffset + size - 1) / t.pageSize + 1 -
        (m.fileDataOffset + offset - t.dataOffset) / t.pageSize)) :
    ∃ o, offset ≤ o ∧ o < offset + size ∧ t.pageOf m o = page := by
  have hdiv : (m.fileDataOffset + offset - t.dataOffset) / t.pageSize ≤
      (m.fileDataOffset + offset - t.dataOffset + size - 1) / t.pageSize :=
    Nat.div_le_div_right (by omega)
  have hlast : page ≤ (m.fileDataOffset + offset - t.dataOffset + size - 1) / t.pageSize := by
    omega
  obtain ⟨b, hb1, hb2, hb⟩ := exists_byte_on_page (by omega) hpage h1 hlast
  refine ⟨b + t.dataOffset - m.fileDataOffset, by omega, by omega, ?_⟩
  rw [LazyFilePageTransform.pageOf, ← hb]
  congr 1
  omega

theorem materializeFileBytes_spec (hi : Inv s) {m : Mapping} (hm : m ∈ s.mappings)
    {offset size : Nat} (hfits : offset + size ≤ m.size) :
    ReadSpec s (materializeFileBytes m offset size) fun _ s' =>
      ∀ k < size, s'.Ready m (offset + k) := by
  unfold materializeFileBytes
  split
  · next file t hfile ht =>
    obtain ⟨-, hps, hlow, hhigh, -⟩ := (hi.shaped m hm).lazyTransform t ht
    unfold materialize
    refine .get_bind ?_
    dsimp only
    split
    · exact .pure (by omega)
    · next hsize =>
      refine .failIf_bind fun _ => ?_
      refine ReadSpec.mono (materializePages_spec hfile ht _ _ hi hm ?_) ?_
      · intro p h1 h2
        obtain ⟨o, -, ho, hp⟩ := exists_offset_on_page hps hlow (by omega) h1 h2
        exact ⟨o, by omega, hp⟩
      · intro _ s' hs h k hk t' ht'
        obtain rfl : t = t' := by simpa [ht] using ht'
        obtain ⟨e1, -, e3, -⟩ := hs.sameShape.transforms t
        rw [LazyFilePageTransform.pageOf, e1, e3]
        refine h _ (Nat.div_le_div_right (by omega)) ?_
        have : (m.fileDataOffset + (offset + k) - (s.transforms t).dataOffset) /
            (s.transforms t).pageSize ≤
          (m.fileDataOffset + offset - (s.transforms t).dataOffset + size - 1) /
            (s.transforms t).pageSize := Nat.div_le_div_right (by omega)
        omega
  · next hnone =>
    refine .pure fun k _ t ht => ?_
    obtain ⟨-, -, -, -, f, hf, -⟩ := (hi.shaped m hm).lazyTransform t ht
    exact (hnone f t hf ht).elim

/-- A mapping that a lookup found may be accessed. -/
theorem Found.accessible {address size i : Nat} {required : Permission} {m : Mapping}
    (h : Found s address size required i m) (hr : required ≠ .none) : m.Accessible := by
  exact .inr (Permission.ne_none_of_has h.permitted hr)

/-- In a backed space the bounds of a mapping are the bounds of its backing. -/
theorem Inv.fits (hi : Inv s) (hb : Backed s) {m : Mapping} (hm : m ∈ s.mappings)
    (hp : m.Accessible) {accessEnd : Nat} (hfits : accessEnd ≤ m.size)
    (hfile : m.fileBytes = none) : accessEnd ≤ m.bytes.size := by
  have hmax : m.maximumPermissions ≠ .none := by
    rcases hp with h | h
    · simp [hfile] at h
    · exact Permission.ne_none_of_has (hi.placed m hm).within h
  rcases hb m hm hmax with h | h
  · simp [hfile] at h
  · omega

theorem loadChunk_spec (hi : Inv s) {m : Mapping} (hm : m ∈ s.mappings)
    (hp : m.Accessible) {offset size : Nat} (hfits : offset + size ≤ m.size) :
    ReadSpec s (loadChunk m offset size) fun bytes s' =>
      bytes = bytesAt (s'.contents m) offset size ∧ ∀ k < size, s'.Ready m (offset + k) := by
  unfold loadChunk
  split
  · next file hfile =>
    refine .bind (materializeFileBytes_spec hi hm hfits) fun _ s' hs hr => .get_bind ?_
    refine .checkBacking_bind (fun _ => ?_) fun _ => .pure ⟨?_, hr⟩
    · have := ((hi.shaped m hm).file file hfile).2
      rw [hs.sameShape.files]
      omega
    · simp [contents, hfile, bytesAt, Nat.add_assoc]
  · next hfile =>
    refine .checkBacking_bind (fun hb => hi.fits hb hm hp hfits hfile) fun _ => .pure ⟨?_, ?_⟩
    · simp [contents, hfile]
    · intro k _ t ht
      obtain ⟨-, -, -, -, f, hf, -⟩ := (hi.shaped m hm).lazyTransform t ht
      simp [hfile] at hf


theorem checkReadable_spec (hi : Inv s) {m : Mapping} (hm : m ∈ s.mappings) {offset size : Nat}
    (hfits : offset + size ≤ m.size) :
    ReadSpec s (checkReadable m offset size) fun _ _ => m.readableBytes.size = 0 ∨
      ∀ k < size, m.readableBytes.get (offset + k) = true := by
  unfold checkReadable
  split
  · next hr => exact .pure (.inl hr)
  · next hr =>
    have : m.readableBytes.size = m.size := by
      rcases (hi.shaped m hm).readable with h | h
      · exact absurd h hr
      · exact h.1
    refine .checkBacking_bind (fun _ => by omega) fun _ => .failIf fun hall => .inr fun k hk => ?_
    simpa using (List.any_eq_false.mp hall) k (by simpa using hk)

/-- The reading loop. -/
theorem readFrom_spec : ∀ (fuel cursor remaining : Nat) {s : AddressSpace}, Inv s →
    ReadSpec s (readFrom fuel cursor remaining) fun _ _ => True
  | 0, _, _, _, _ => .pure trivial
  | fuel + 1, cursor, remaining, s, hi => by
    rw [readFrom]
    split
    · exact .pure trivial
    · refine .bind (find_spec hi Nat.one_pos _) fun found s1 hs1 hf => ?_
      have hm : found.2 ∈ s1.mappings := hs1.mappings_eq ▸ hf.mem
      have hlimit := hf.limit
      have hfits : cursor - found.2.base + min remaining (found.2.size - (cursor - found.2.base)) ≤
          found.2.size := by omega
      refine .bind (checkReadable_spec (hs1.inv hi) hm hfits) fun _ s2 hs2 _ => ?_
      have hi2 := hs2.inv (hs1.inv hi)
      refine .bind (loadChunk_spec hi2 (hs2.mappings_eq ▸ hm)
        (hf.accessible (by decide)) hfits) fun _ s3 hs3 _ => ?_
      exact .bind (readFrom_spec fuel _ _ (hs3.inv hi2)) fun _ _ _ _ => .pure trivial

theorem readWord_spec (hi : Inv s) (address size : Nat) :
    ReadSpec s (readWord address size) fun _ _ => True := by
  unfold readWord
  refine .bind (find_spec hi Nat.one_pos _) fun found s1 hs1 hf => ?_
  have hm : found.2 ∈ s1.mappings := hs1.mappings_eq ▸ hf.mem
  have hlimit := hf.limit
  dsimp only
  split
  · next h =>
    exact (loadChunk_spec (hs1.inv hi) hm (hf.accessible (by decide))
      (by omega)).mono fun _ _ _ _ => trivial
  · exact readFrom_spec _ _ _ (hs1.inv hi)

theorem validateFrom_spec (required : Permission) :
    ∀ (fuel cursor remaining : Nat) {s : AddressSpace}, Inv s →
      ReadSpec s (validateFrom required fuel cursor remaining) fun _ _ => True
  | 0, _, _, _, _ => .pure trivial
  | fuel + 1, cursor, remaining, s, hi => by
    rw [validateFrom]
    split
    · exact .pure trivial
    · refine .bind (find_spec hi Nat.one_pos _) fun found s1 hs1 _ => ?_
      exact validateFrom_spec required fuel _ _ (hs1.inv hi)

theorem directMemoryView_spec (hi : Inv s) (address : Nat) (required : Permission) :
    ReadSpec s (directMemoryView address required) fun view _ => ∀ i m, view = some (i, m) →
      Found s address 1 required i m ∧ m.fileBytes = none ∧ m.bytes.size = m.size ∧
        ¬(required.write = true ∧ m.permissions.execute = true) := by
  unfold directMemoryView
  refine .bind (find_spec hi Nat.one_pos _) fun found s1 hs1 hf => ?_
  dsimp only
  split
  · exact .pure (by simp)
  · next h =>
    simp only [Bool.or_eq_true, Bool.and_eq_true, bne_iff_ne, not_or, ne_eq, not_not,
      Bool.not_eq_true, Option.isSome_eq_false_iff, Option.isNone_iff_eq_none] at h
    refine .pure fun i m hv => ?_
    obtain ⟨rfl, rfl⟩ : found.1 = i ∧ found.2 = m := by simpa [Prod.ext_iff] using hv
    exact ⟨hf, h.1.1.1, h.1.2, h.2⟩

theorem executableBytes_spec (hi : Inv s) (address : Nat) :
    ReadSpec s (executableBytes address) fun _ _ => True := by
  unfold executableBytes
  refine .bind (find_spec hi Nat.one_pos _) fun found s1 hs1 hf => ?_
  have hm : found.2 ∈ s1.mappings := hs1.mappings_eq ▸ hf.mem
  have hlimit := hf.limit
  have hp := hf.accessible (by decide)
  dsimp only
  split
  · exact (loadChunk_spec (hs1.inv hi) hm hp (by omega)).mono fun _ _ _ _ => trivial
  · next hfile =>
    exact .checkBacking_bind (fun hb => (hs1.inv hi).fits hb hm hp (by omega) hfile) fun _ => .pure trivial

/-! ## Accesses that write -/

/-- The byte at `address` may be stored. -/
def WritableAt (s : AddressSpace) (address : Nat) : Prop :=
  ∃ i m, Found s address 1 { write := true } i m ∧ s.Ready m (address - m.base)

/-- The mapping, up to its contents, is one of `s` with a byte of the range. -/
def Within (s : AddressSpace) (start size : Nat) (m : Mapping) : Prop :=
  ∃ m' ∈ s.mappings, m'.SameShape m ∧ Mapping.Meets m' start size

theorem Touches.writableAt (h : Touches allowed s s') {address : Nat}
    (hw : s.WritableAt address) : s'.WritableAt address := by
  obtain ⟨i, m, ⟨h1, h2, h3, h4⟩, hr⟩ := hw
  obtain ⟨m', hm', he⟩ := h.sameShape.getElem?' h1
  refine ⟨i, m', ⟨hm', ?_, ?_, ?_⟩, ?_⟩
  · rw [he.base]; exact h2
  · rw [he.base, he.size]; exact h3
  · rw [he.permissions]; exact h4
  · rw [he.base]; exact h.ready he hr

/-- Two lookups of one byte find one mapping. -/
theorem Found.unique (hi : Inv s) {address i j : Nat} {p q : Permission} {m m' : Mapping}
    (h : Found s address 1 p i m) (h' : Found s address 1 q j m') : i = j ∧ m = m' := by
  have h1 := h.base
  have h2 := h.limit
  have h3 := h'.base
  have h4 := h'.limit
  obtain rfl := hi.sorted.unique h.index h'.index (by omega) (by omega)
  exact ⟨rfl, by simpa [h.index] using h'.index⟩

/-- The validating loop checks every byte and sees every executable mapping. -/
theorem validateWrite_spec : ∀ (fuel cursor remaining : Nat) {s : AddressSpace}, Inv s →
    remaining ≤ fuel →
    ReadSpec s (validateWrite fuel cursor remaining) fun flag s' =>
      (∀ k < remaining, s'.WritableAt (cursor + k)) ∧
      ∀ m ∈ s'.mappings, Mapping.Meets m cursor remaining → m.permissions.execute = true →
        flag = true
  | 0, cursor, remaining, s, _, hfuel => by
    refine .pure ⟨by omega, ?_⟩
    rintro m - ⟨k, hk, -⟩
    omega
  | fuel + 1, cursor, remaining, s, hi, hfuel => by
    rw [validateWrite]
    split
    · refine .pure ⟨by omega, ?_⟩
      rintro m - ⟨k, hk, -⟩
      omega
    · next hne =>
      refine .bind (find_spec hi Nat.one_pos _) fun found s1 hs1 hf => ?_
      obtain ⟨i, m⟩ := found
      have hm : m ∈ s1.mappings := hs1.mappings_eq ▸ hf.mem
      have hi1 := hs1.inv hi
      dsimp only at hf ⊢
      generalize hchunk : min remaining (m.size - (cursor - m.base)) = chunk
      obtain ⟨hbase, hfits, hle, hpos, hnext⟩ := hf.chunk hi hchunk
      refine .bind (materializeFileBytes_spec hi1 hm hfits)
        fun _ s2 hs2 hready => ?_
      have hi2 := hs2.inv hi1
      rw [Nat.mod_eq_of_lt hnext]
      refine .bind (validateWrite_spec fuel (cursor + chunk) (remaining - chunk) hi2 (by omega))
        fun flag s3 hs3 hrest => .pure ⟨fun k hk => ?_, fun m' hm' hmeets hx => ?_⟩
      · rcases Nat.lt_or_ge k chunk with hkc | hkc
        · refine hs3.writableAt ⟨i, m, ⟨?_, by omega, by omega, hf.permitted⟩, ?_⟩
          · rw [hs2.mappings_eq, hs1.mappings_eq]
            exact hf.index
          · rw [show cursor + k - m.base = cursor - m.base + k by omega]
            exact hready k hkc
        · have := hrest.1 (k - chunk) (by omega)
          rwa [show cursor + chunk + (k - chunk) = cursor + k by omega] at this
      · rw [Bool.or_eq_true]
        have hm3 : s3.mappings = s.mappings := by
          rw [hs3.mappings_eq, hs2.mappings_eq, hs1.mappings_eq]
        obtain ⟨j, hj⟩ := List.getElem?_of_mem (hm3 ▸ hm')
        obtain ⟨k, hk, h1, h2⟩ := hmeets
        rcases Nat.lt_or_ge k chunk with hkc | hkc
        · -- the mapping shares a byte with the one that was found
          have hsame : j = i := hi.sorted.unique hj hf.index (by omega) (by omega)
          obtain rfl : m = m' := by simpa [hsame, hf.index] using hj
          exact .inl hx
        · refine .inr (hrest.2 m' hm' ⟨k - chunk, by omega, ?_⟩ hx)
          rw [show cursor + chunk + (k - chunk) = cursor + k by omega]
          exact ⟨h1, h2⟩

/-- A store into a byte range that is ready; only a space that is not backed refuses it. -/
theorem storeChunk_spec (hi : Inv s) {i offset : Nat} {m : Mapping} {data : List Byte}
    (hm : s.mappings[i]? = some m) (hp : m.Accessible)
    (hfits : offset + data.length ≤ m.size) :
    Post (storeChunk i m offset data) s (fun _ s' => s' = storeBytes i m offset data s)
      fun _ s' => s' = s ∧ ¬Backed s := by
  have hmem := List.mem_of_getElem? hm
  unfold storeChunk
  refine Post.bind (Post.get ?_)
  dsimp only
  split
  · next file hfile =>
    refine Post.bind (Post.raiseIf (fun hc => ?_) fun _ => Post.modify rfl)
    have := ((hi.shaped m hmem).file file hfile).2
    simp only [decide_eq_true_eq] at hc
    omega
  · next hfile =>
    refine Post.bind (Post.raiseIf (fun hc => ⟨rfl, fun hb => ?_⟩) fun _ => Post.modify rfl)
    have := hi.fits hb hmem hp hfits hfile
    simp only [decide_eq_true_eq] at hc
    omega

/-- The copying loop stores into the mappings of its range. -/
theorem copyBytes_spec : ∀ (fuel cursor : Nat) (data : List Byte) {s : AddressSpace}, Inv s →
    data.length ≤ fuel → (∀ k < data.length, s.WritableAt (cursor + k)) →
    Post (copyBytes fuel cursor data) s
      (fun _ s' => Touches (Within s cursor data.length) s s')
      fun _ s' => Touches (Within s cursor data.length) s s' ∧ ¬Backed s
  | 0, _, _, _, _, _, _ => Post.pure .refl
  | fuel + 1, cursor, data, s, hi, hfuel, hw => by
    rw [copyBytes]
    split
    · exact Post.pure .refl
    · next hne =>
      have hlen : 0 < data.length := List.length_pos_iff.mpr hne
      obtain ⟨i, m, hf, -⟩ := hw 0 hlen
      refine Post.bind (Post.mono (find_found hi Nat.one_pos hf) ?_ fun _ _ h => h.elim)
      rintro _ s1 ⟨rfl, hs1⟩
      have hi1 := hs1.inv hi
      have hm1 : s1.mappings[i]? = some m := by rw [hs1.mappings_eq]; exact hf.index
      dsimp only
      generalize hchunk : min data.length (m.size - (cursor - m.base)) = chunk
      obtain ⟨hbase, hfits, hle, hpos, hnext⟩ : ChunkAt m cursor data.length chunk :=
        hf.chunk hi hchunk
      have htake : (data.take chunk).length = chunk := by simp; omega
      have hstart : Touches (Within s cursor data.length) s s1 := hs1.mono fun _ h => h.elim
      have hready (k : Nat) (hk : k < chunk) : s1.Ready m (cursor - m.base + k) := by
        obtain ⟨j, m', hf', hr'⟩ := hw k (by omega)
        have hsame : i = j := hi.sorted.unique hf.index hf'.index
          (by have := hf'.base; have := hf'.limit; omega) (by have := hf'.base; have := hf'.limit; omega)
        have hmm : m' = m := by simpa [hsame, hf'.index] using hf.index
        rw [hmm] at hr'
        rw [show cursor - m.base + k = cursor + k - m.base by omega]
        exact hs1.ready (.refl m) hr'
      have hwithin : Within s cursor data.length m :=
        ⟨m, hf.mem, .refl m, 0, hlen, hbase, by omega⟩
      refine Post.bind (Post.mono (storeChunk_spec hi1 hm1
        (hf.accessible (by decide)) (by rw [htake]; omega)) ?_ ?_)
      · rintro _ s2 rfl
        have htouch : Touch (Within s cursor data.length) s1
            (storeBytes i m (cursor - m.base) (data.take chunk) s1) :=
          .store hm1 hwithin (by rw [htake]; omega) (by rw [htake]; exact hready)
        have hs2 := hstart.trans (.single htouch)
        rw [Nat.mod_eq_of_lt hnext]
        refine Post.mono (copyBytes_spec fuel (cursor + chunk) (data.drop chunk) (hs2.inv hi)
          (by simp; omega) ?_) ?_ ?_
        · intro k hk
          rw [List.length_drop] at hk
          rw [Nat.add_assoc]
          exact hs2.writableAt (hw (chunk + k) (by omega))
        all_goals
          have hle (m' : Mapping) (h : Within (storeBytes i m (cursor - m.base) (data.take chunk) s1)
              (cursor + chunk) (data.drop chunk).length m') : Within s cursor data.length m' := by
            obtain ⟨m2, hm2, he2, k, hk, h1, h2⟩ := h
            obtain ⟨m0, hm0, he0⟩ := hs2.sameShape.mem hm2
            rw [List.length_drop] at hk
            rw [he0.base] at h1 h2
            rw [he0.size] at h2
            exact ⟨m0, hm0, Mapping.SameShape.trans he0 he2, chunk + k, by omega, by omega, by omega⟩
        · intro _ s3 h3
          exact hs2.trans (h3.mono hle)
        · rintro _ s3 ⟨h3, hb⟩
          exact ⟨hs2.trans (h3.mono hle), fun hbs => hb (hs2.backed hbs)⟩
      · rintro _ s2 ⟨rfl, hb⟩
        exact ⟨hstart, fun hbs => hb (hs1.backed hbs)⟩

theorem bumped_inv {flag : Bool} (hi : Inv s) : Inv (bumped flag s) :=
  ⟨hi.placed, hi.sorted, fun m hm => ⟨(hi.shaped m hm).bytes, (hi.shaped m hm).readable,
    (hi.shaped m hm).file, (hi.shaped m hm).lazyTransform⟩, hi.shift, hi.lookup⟩

/-- Counting and changing contents commute. -/
theorem Touch.of_bumped {flag : Bool} (h : Touch allowed (bumped flag s) s') :
    ∃ s1, Touch allowed s s1 ∧ s' = bumped flag s1 := by
  cases h with
  | lookup hm => exact ⟨_, .lookup hm, rfl⟩
  | transform hm hf ht ho hn => exact ⟨_, .transform hm hf ht ho hn, rfl⟩
  | @store i offset m data hm ha hfits hr =>
    refine ⟨_, .store (s := s) hm ha hfits hr, ?_⟩
    unfold storeBytes
    split <;> rfl

theorem Touches.of_bumped {flag : Bool} (h : Touches allowed (bumped flag s) s') :
    ∃ s1, Touches allowed s s1 ∧ s' = bumped flag s1 := by
  induction h with
  | refl => exact ⟨s, .refl, rfl⟩
  | tail _ ht ih =>
    obtain ⟨s1, h1, rfl⟩ := ih
    obtain ⟨s2, h2, rfl⟩ := ht.of_bumped
    exact ⟨s2, h1.trans (.single h2), rfl⟩

/-- What a write can do : stores, counted if one of them goes to an executable mapping. -/
def Stores (s s' : AddressSpace) : Prop :=
  ∃ flag s1, Touches (fun m => m.permissions.execute = true → flag = true) s s1 ∧
    s' = bumped flag s1

/-- A write stores and counts, or it throws; in a backed space a write that throws has
stored nothing and indexed no backing out of bounds. -/
def WriteSpec (s : AddressSpace) (x : Access Unit) : Prop :=
  Post x s (fun _ s' => Stores s s') fun e s' =>
    (∃ flag s1, Touches (fun _ => True) s s1 ∧ s' = bumped flag s1) ∧
      (Backed s → e ≠ .outsideBacking ∧ ∃ flag s1, Touches nowhere s s1 ∧ s' = bumped flag s1)

theorem Stores.refl (s : AddressSpace) : Stores s s := ⟨false, s, .refl, rfl⟩

/-- The accesses before a write. -/
theorem WriteSpec.bind {x : Access β} {f : β → Access Unit} {R : β → AddressSpace → Prop}
    (hx : ReadSpec s x R) (hf : ∀ b s', Touches nowhere s s' → R b s' → WriteSpec s' (f b)) :
    WriteSpec s (x >>= f) := by
  refine Post.bind (Post.mono hx ?_ ?_)
  · rintro b s' ⟨hs, hr⟩
    refine Post.mono (hf b s' hs hr) ?_ ?_
    · rintro _ _ ⟨flag, s1, h1, rfl⟩
      exact ⟨flag, s1, (hs.mono fun _ h => h.elim).trans h1, rfl⟩
    · rintro e _ ⟨⟨flag, s1, h1, rfl⟩, h⟩
      refine ⟨⟨flag, s1, (hs.mono fun _ h => h.elim).trans h1, rfl⟩, fun hb => ?_⟩
      obtain ⟨he, flag', s2, h2, heq⟩ := h (hs.backed hb)
      exact ⟨he, flag', s2, hs.trans h2, heq⟩
  · rintro e s' ⟨hs, he⟩
    exact ⟨⟨false, s', hs.mono fun _ h => h.elim, rfl⟩, fun hb => ⟨he hb, false, s', hs, rfl⟩⟩

theorem WriteSpec.pure : WriteSpec s (Pure.pure ()) := Post.pure (Stores.refl s)

/-- A store into one mapping, counted if the mapping is executable. -/
theorem storeChunk_writes (hi : Inv s) {i offset : Nat} {m : Mapping} {data : List Byte}
    {flag : Bool} (hm : s.mappings[i]? = some m) (hp : m.Accessible)
    (hfits : offset + data.length ≤ m.size) (hready : ∀ k < data.length, s.Ready m (offset + k))
    (hflag : m.permissions.execute = true → flag = true) :
    WriteSpec s (storeChunk i m offset data >>= fun _ => bumpIf flag) := by
  refine Post.bind (Post.mono (storeChunk_spec hi hm hp hfits) ?_ ?_)
  · rintro _ _ rfl
    exact Post.modify ⟨flag, _, .single (.store hm hflag hfits hready), rfl⟩
  · rintro e _ ⟨rfl, hb⟩
    exact ⟨⟨false, _, .refl, rfl⟩, fun hbs => absurd hbs hb⟩

theorem writeBytes_spec (hi : Inv s) (address : Nat) (data : List Byte) :
    WriteSpec s (writeBytes address data) := by
  unfold writeBytes
  split
  · exact .pure
  · refine .bind (find_spec hi Nat.one_pos _) fun found s1 hs1 hf => ?_
    obtain ⟨i, m⟩ := found
    have hi1 := hs1.inv hi
    have hm1 : s1.mappings[i]? = some m := by rw [hs1.mappings_eq]; exact hf.index
    have hbase : m.base ≤ address := hf.base
    have hlimit : address + 1 ≤ m.base + m.size := hf.limit
    dsimp only
    split
    · next hone =>
      refine .bind (materializeFileBytes_spec hi1 (List.mem_of_getElem? hm1) (by omega))
        fun _ s2 hs2 hready => ?_
      exact storeChunk_writes (hs2.inv hi1) (by rw [hs2.mappings_eq]; exact hm1)
        (hf.accessible (by decide)) (by omega) hready id
    · refine .bind (validateWrite_spec _ _ _ hi1 (le_refl _)) fun flag s2 hs2 ⟨hw, hx⟩ => ?_
      have hle (m' : Mapping) (h : Within s2 address data.length m')
          (he : m'.permissions.execute = true) : flag = true := by
        obtain ⟨m0, hm0, hs0, hmeets⟩ := h
        exact hx m0 hm0 hmeets (hs0.permissions ▸ he)
      refine Post.bind (Post.mono (copyBytes_spec _ _ _ (hs2.inv hi1) (le_refl _) hw) ?_ ?_)
      · intro _ s3 h3
        exact Post.modify ⟨flag, s3, h3.mono hle, rfl⟩
      · rintro e s3 ⟨h3, hb⟩
        exact ⟨⟨false, s3, h3.mono fun _ _ => trivial, rfl⟩, fun hbs => absurd hbs hb⟩

theorem writeDirect_spec (hi : Inv s) (address : Nat) (required : Permission) (offset : Nat)
    (data : List Byte) : WriteSpec s (writeDirect address required offset data) := by
  unfold writeDirect
  refine .bind (directMemoryView_spec hi _ _) fun view s1 hs1 hv => ?_
  have hi1 := hs1.inv hi
  cases view with
  | none => exact .pure
  | some view =>
    obtain ⟨i, m⟩ := view
    obtain ⟨hf, hfile, -, hx⟩ := hv i m rfl
    have hm1 : s1.mappings[i]? = some m := by rw [hs1.mappings_eq]; exact hf.index
    have hp : m.Accessible := hf.accessible fun h => by
      simpa [Permission.none] using congrArg Permission.write h
    dsimp only
    split
    · next hfits =>
      have hready (k : Nat) (_ : k < data.length) : s1.Ready m (offset + k) := by
        intro t ht
        obtain ⟨-, -, -, -, f, hf', -⟩ :=
          (hi1.shaped m (List.mem_of_getElem? hm1)).lazyTransform t ht
        simp [hfile] at hf'
      have hx' : m.permissions.execute = true → false = true := fun h => absurd ⟨rfl, h⟩ hx
      refine Post.mono (storeChunk_spec hi1 hm1 hp hfits) ?_ ?_
      · rintro _ _ rfl
        exact ⟨false, _, .single (.store hm1 hx' hfits hready), rfl⟩
      · rintro e _ ⟨rfl, hb⟩
        exact ⟨⟨false, _, .refl, rfl⟩, fun hbs => absurd hbs hb⟩
    · exact .pure

theorem mutablePrivateFileMappingBytes_spec (hi : Inv s) (base : Nat)
    (edit : List Byte → List Byte) : WriteSpec s (mutablePrivateFileMappingBytes base edit) := by
  unfold mutablePrivateFileMappingBytes
  refine Post.bind (Post.get ?_)
  dsimp only
  have hfail {e : AccessError} (he : e ≠ .outsideBacking) :
      (∃ flag s1, Touches (fun _ => True) s s1 ∧ s = bumped flag s1) ∧
        (Backed s → e ≠ .outsideBacking ∧ ∃ flag s1, Touches nowhere s s1 ∧ s = bumped flag s1) :=
    ⟨⟨false, s, .refl, rfl⟩, fun _ => ⟨he, false, s, .refl, rfl⟩⟩
  cases hm : s.mappings[lowerBound s.mappings base]? with
  | none => exact Post.raise (hfail (by simp))
  | some m =>
    refine Post.bind (Post.raiseIf (fun _ => hfail (by simp)) fun hc => ?_)
    have hfile : m.fileBytes.isSome = true := by
      simp only [Bool.or_eq_false_iff] at hc
      simpa [Option.isSome_iff_ne_none] using hc.2
    refine Post.bind (Post.modify ?_)
    have hmem := List.mem_of_getElem? hm
    have hi1 : Inv (bumped m.permissions.execute s) := bumped_inv hi
    refine Post.bind (Post.mono (loadChunk_spec hi1 hmem (.inl hfile)
      (Nat.zero_add m.size).le) ?_ ?_)
    · rintro bytes s1 ⟨hs1, -, hready⟩
      have hm1 : s1.mappings[lowerBound s.mappings base]? = some m := by
        rw [hs1.mappings_eq]
        exact hm
      have hlen : 0 + ((edit bytes).take m.size).length ≤ m.size := by simp
      refine Post.mono (storeChunk_spec (hs1.inv hi1) hm1 (.inl hfile) hlen) ?_ ?_
      · rintro _ _ rfl
        have htouch : Touches (fun m' => m'.permissions.execute = true →
            m.permissions.execute = true) (bumped m.permissions.execute s) _ :=
          (hs1.mono fun _ h => h.elim).trans (.single (.store hm1 id hlen fun k hk =>
            hready k (by omega)))
        obtain ⟨s2, h2, heq⟩ := htouch.of_bumped
        exact ⟨_, s2, h2, heq⟩
      · rintro e _ ⟨rfl, hb⟩
        obtain ⟨s2, h2, rfl⟩ := hs1.of_bumped
        exact ⟨⟨_, s2, h2.mono fun _ h => h.elim, rfl⟩, fun hbs => absurd (hs1.backed hbs) hb⟩
    · rintro e s1 ⟨hs1, he⟩
      obtain ⟨s2, h2, rfl⟩ := hs1.of_bumped
      exact ⟨⟨_, s2, h2.mono fun _ h => h.elim, rfl⟩, fun hb => ⟨he hb, _, s2, h2, rfl⟩⟩

/-! ## Pictures of memory -/

theorem overwrite_nil {α : Type} (f : Nat → α) (c : Nat) : overwrite f c [] = f := by
  funext i
  simp [overwrite]

theorem overwrite_append {α : Type} (f : Nat → α) (c : Nat) (data rest : List α) :
    overwrite (overwrite f c data) (c + data.length) rest = overwrite f c (data ++ rest) := by
  funext i
  unfold overwrite
  by_cases h1 : c + data.length ≤ i
  · have hnone : data[i - c]? = none := List.getElem?_eq_none (by omega)
    rw [if_pos h1, if_pos (by omega), if_pos (by omega), List.getElem?_append_right (by omega),
      hnone, show i - c - data.length = i - (c + data.length) by omega]
    rfl
  · rw [if_neg h1]
    by_cases h2 : c ≤ i
    · rw [if_pos h2, if_pos h2, List.getElem?_append_left (by omega)]
    · rw [if_neg h2, if_neg h2]

theorem overwrite_shift {α : Type} {f g : Nat → α} {i j k : Nat} {data : List α}
    (h : f (i + k) = g (j + k)) {c d : Nat} (hd : d + i = c + j) :
    overwrite f c data (i + k) = overwrite g d data (j + k) := by
  unfold overwrite
  by_cases hle : c ≤ i + k
  · rw [if_pos hle, if_pos (by omega), h, show i + k - c = j + k - d by omega]
  · rw [if_neg hle, if_neg (by omega), h]

/-- What a picture of guest memory, by address, says about a space, if accesses that store
nothing keep it and a store shows in it. -/
structure FollowsWrites (P : (Nat → Byte) → AddressSpace → Prop) : Prop where
  touches : ∀ {expected : Nat → Byte} {s s' : AddressSpace}, P expected s →
    Touches nowhere s s' → P expected s'
  stores : ∀ {expected : Nat → Byte} {s : AddressSpace} {i offset : Nat} {m : Mapping}
    {data : List Byte}, P expected s → s.mappings[i]? = some m → offset + data.length ≤ m.size →
    (∀ k < data.length, s.Ready m (offset + k)) →
    P (overwrite expected (m.base + offset) data) (storeBytes i m offset data s)
  bumps : ∀ {expected : Nat → Byte} {s : AddressSpace} {flag : Bool}, P expected s →
    P expected (bumped flag s)

section

variable {P : (Nat → Byte) → AddressSpace → Prop} (hP : FollowsWrites P)

include hP

/-- The copying loop stores the bytes in their places. -/
theorem FollowsWrites.copyBytes : ∀ (fuel cursor : Nat) (data : List Byte) {s : AddressSpace}
    {expected : Nat → Byte}, Inv s → Backed s → P expected s → data.length ≤ fuel →
    (∀ k < data.length, s.WritableAt (cursor + k)) →
    Post (copyBytes fuel cursor data) s (fun _ s' => P (overwrite expected cursor data) s')
      fun _ _ => False
  | 0, cursor, data, s, expected, _, _, h, hfuel, _ => by
    obtain rfl := List.length_eq_zero_iff.mp (Nat.le_zero.mp hfuel)
    rw [overwrite_nil]
    exact Post.pure h
  | fuel + 1, cursor, data, s, expected, hi, hb, h, hfuel, hw => by
    rw [AddressSpace.copyBytes]
    split
    · next hnil =>
      rw [hnil, overwrite_nil]
      exact Post.pure h
    · next hne =>
      have hlen : 0 < data.length := List.length_pos_iff.mpr hne
      obtain ⟨i, m, hf, -⟩ := hw 0 hlen
      refine Post.bind (Post.mono (find_found hi Nat.one_pos hf) ?_ fun _ _ h => h.elim)
      rintro _ s1 ⟨rfl, hs1⟩
      have hi1 := hs1.inv hi
      have hm1 : s1.mappings[i]? = some m := by rw [hs1.mappings_eq]; exact hf.index
      dsimp only
      generalize hchunk : min data.length (m.size - (cursor - m.base)) = chunk
      obtain ⟨hbase, hfits, hle, hpos, hnext⟩ : ChunkAt m cursor data.length chunk :=
        hf.chunk hi hchunk
      have htake : (data.take chunk).length = chunk := by simp; omega
      have hfits : cursor - m.base + (data.take chunk).length ≤ m.size := by rw [htake]; omega
      have hready (k : Nat) (hk : k < chunk) : s1.Ready m (cursor - m.base + k) := by
        obtain ⟨j, m', hf', hr'⟩ := hs1.writableAt (hw k (by omega))
        have hfound : Found s1 (cursor + k) 1 { write := true } i m :=
          ⟨hm1, by omega, by omega, hf.permitted⟩
        obtain ⟨-, rfl⟩ := hfound.unique hi1 hf'
        rwa [show cursor - m.base + k = cursor + k - m.base by omega]
      have htouch : Touches (fun _ => True) s1
          (storeBytes i m (cursor - m.base) (data.take chunk) s1) :=
        .single (.store hm1 trivial hfits (by rw [htake]; exact hready))
      refine Post.bind (Post.mono (storeChunk_spec hi1 hm1 (hf.accessible (by decide)) hfits) ?_
        fun _ _ he => absurd (hs1.backed hb) he.2)
      rintro _ s2 rfl
      have h2 := hP.stores (hP.touches h hs1) hm1 hfits (by rw [htake]; exact hready)
      rw [show m.base + (cursor - m.base) = cursor by omega] at h2
      rw [Nat.mod_eq_of_lt hnext]
      refine Post.mono (FollowsWrites.copyBytes fuel (cursor + chunk) (data.drop chunk)
        (htouch.inv hi1) (htouch.backed (hs1.backed hb)) h2 (by simp; omega) fun k hk => ?_) ?_
        fun _ _ he => he
      · rw [List.length_drop] at hk
        rw [Nat.add_assoc]
        exact htouch.writableAt (hs1.writableAt (hw (chunk + k) (by omega)))
      · intro _ s3 h3
        have := overwrite_append expected cursor (data.take chunk) (data.drop chunk)
        rw [htake, List.take_append_drop] at this
        rwa [← this]

/-- A write that returns stores all its bytes, and one that throws none. -/
theorem FollowsWrites.writeBytes {expected : Nat → Byte} (h : P expected s) (hi : Inv s)
    (hb : Backed s) (address : Nat) (data : List Byte) :
    Post (writeBytes address data) s (fun _ s' => P (overwrite expected address data) s')
      fun _ s' => P expected s' := by
  unfold AddressSpace.writeBytes
  split
  · next hnil =>
    rw [hnil, overwrite_nil]
    exact Post.pure h
  · refine Post.bind (Post.mono (find_spec hi Nat.one_pos _) ?_ fun _ _ he => hP.touches h he.1)
    rintro ⟨i, m⟩ s1 ⟨hs1, hf⟩
    have hi1 := hs1.inv hi
    have h1 := hP.touches h hs1
    have hm1 : s1.mappings[i]? = some m := by rw [hs1.mappings_eq]; exact hf.index
    have hbase : m.base ≤ address := hf.base
    have hlimit : address + 1 ≤ m.base + m.size := hf.limit
    dsimp only at hf ⊢
    split
    · next hone =>
      refine Post.bind (Post.mono (materializeFileBytes_spec hi1 (List.mem_of_getElem? hm1)
        (by omega)) ?_ fun _ _ he => hP.touches h1 he.1)
      rintro _ s2 ⟨hs2, hready⟩
      have hm2 : s2.mappings[i]? = some m := by rw [hs2.mappings_eq]; exact hm1
      refine Post.bind (Post.mono (storeChunk_spec (hs2.inv hi1) hm2 (hf.accessible (by decide))
        (by omega)) ?_ fun _ _ he => absurd (hs2.backed (hs1.backed hb)) he.2)
      rintro _ _ rfl
      have h2 := hP.stores (hP.touches h1 hs2) hm2 (by omega) hready
      rw [show m.base + (address - m.base) = address by omega] at h2
      exact Post.modify (hP.bumps h2)
    · refine Post.bind (Post.mono (validateWrite_spec _ _ _ hi1 (le_refl _)) ?_
        fun _ _ he => hP.touches h1 he.1)
      rintro flag s2 ⟨hs2, hw, -⟩
      refine Post.bind (Post.mono (hP.copyBytes _ _ _ (hs2.inv hi1)
        (hs2.backed (hs1.backed hb)) (hP.touches h1 hs2) (le_refl _) hw) ?_ fun _ _ he => he.elim)
      exact fun _ s3 h3 => Post.modify (hP.bumps h3)

end

end AddressSpace

end Rosa
