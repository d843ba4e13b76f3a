import Rosa.Guest.ReadableBytes

/-!
# Words of guest memory

Words that the emulator itself reads and writes, such as the stack slots of calls and returns. On a
space that shows a picture (`Shown`) a word that may be read is the one of the picture, and a word
that may be written replaces it there and changes nothing else. A word that may not be accessed
throws and leaves the memory as it was.
-/

namespace Rosa

namespace AddressSpace

open Rosa.Computation

variable {s s' : AddressSpace} {memory : Nat → Byte} {m : Mapping} {address size : Nat}

/-- The space is regular and shows the picture. -/
structure Shown (memory : Nat → Byte) (s : AddressSpace) : Prop where
  regular : Regular s
  depicts : Depicts memory s.settled

/-- The byte is in a mapping with write permission. -/
def MayWrite (s : AddressSpace) (address : Nat) : Prop :=
  ∃ i m, Found s address 1 { write := true } i m

/-- Every regular space shows some picture. -/
theorem Regular.exists_shown (hr : Regular s) : ∃ memory, Shown memory s := by
  obtain ⟨memory, hd⟩ := exists_depicts hr.inv.settled
  exact ⟨memory, hr, hd⟩

theorem SameMemory.depicts (h : SameMemory s s') (hd : Depicts memory s.settled) :
    Depicts memory s'.settled := by
  intro m hm o ho
  have hm' : m ∈ s.mappings := h.mappings ▸ hm
  rw [(h.bytes m hm' o ho).2]
  exact hd m hm' o ho

theorem Calm.shown (h : Calm s s') (hs : Shown memory s) : Shown memory s' :=
  ⟨h.regular hs.regular, (h.sameMemory hs.regular).depicts hs.depicts⟩

/-! ## Permitted accesses -/

/-- What decides which accesses a mapping permits. -/
def access (m : Mapping) : Nat × Nat × Permission × HostVector Bool :=
  (m.base, m.size, m.permissions, m.readableBytes)

/-- The spaces permit the same accesses. -/
def SamePermits (s s' : AddressSpace) : Prop := s'.mappings.map access = s.mappings.map access

theorem SamePermits.symm (h : SamePermits s s') : SamePermits s' s := Eq.symm h

theorem SamePermits.of_mappings (h : s'.mappings = s.mappings) : SamePermits s s' :=
  congrArg (List.map access) h

theorem Touches.samePermits {allowed : Mapping → Prop} (h : Touches allowed s s') :
    SamePermits s s' := by
  induction h with
  | refl => rfl
  | @tail s1 s2 _ ht ih =>
    refine Eq.trans ?_ ih
    cases ht with
    | lookup => rfl
    | transform => rfl
    | @store i offset m data hm =>
      unfold storeBytes
      split
      · rfl
      · rw [List.map_set]
        obtain ⟨hi, rfl⟩ := List.getElem?_eq_some_iff.mp hm
        refine List.ext_getElem (by simp) fun j hj hj' => ?_
        by_cases hij : i = j
        · subst hij
          simp [access]
        · simp [hij]

theorem SamePermits.found (h : SamePermits s s') {required : Permission} {i : Nat}
    (hf : Found s address 1 required i m) :
    ∃ m', Found s' address 1 required i m' ∧ m'.base = m.base ∧
      m'.readableBytes = m.readableBytes := by
  have hmap : (s'.mappings.map access)[i]? = some (access m) := by
    rw [h, List.getElem?_map, hf.index]
    rfl
  rw [List.getElem?_map, Option.map_eq_some_iff] at hmap
  obtain ⟨m', hm', hsame⟩ := hmap
  simp only [access, Prod.mk.injEq] at hsame
  obtain ⟨hbase, hsize, hpermissions, hreadable⟩ := hsame
  exact ⟨m', ⟨hm', hbase ▸ hf.base, by rw [hbase, hsize]; exact hf.limit,
    hpermissions ▸ hf.permitted⟩, hbase, hreadable⟩

theorem SamePermits.readableAt (h : SamePermits s s') (hr : s.ReadableAt address) :
    s'.ReadableAt address := by
  obtain ⟨i, m, hf, hthere⟩ := hr
  obtain ⟨m', hf', hbase, hreadable⟩ := h.found hf
  exact ⟨i, m', hf', by rw [hbase, hreadable]; exact hthere⟩

theorem SamePermits.mayWrite (h : SamePermits s s') (hw : s.MayWrite address) :
    s'.MayWrite address := by
  obtain ⟨i, m, hf⟩ := hw
  obtain ⟨m', hf', -⟩ := h.found hf
  exact ⟨i, m', hf'⟩

/-! ## Reads -/

/-- The bytes of a chunk are the ones of the picture. -/
theorem loadChunk_depicts (hi : Inv s) (hl : LazyInv s) (hd : Depicts memory s)
    (hm : m ∈ s.mappings) (hp : m.Accessible) {offset : Nat} (hfits : offset + size ≤ m.size) :
    ReadSpec s (loadChunk m offset size) fun bytes _ =>
      bytes = bytesAt memory (m.base + offset) size := by
  refine (loadChunk_spec hi hm hp hfits).mono fun bytes s' hs' hb => ?_
  obtain ⟨rfl, hready⟩ := hb
  obtain ⟨-, -, hd'⟩ := followsWrites_depicts.touches ⟨hi, hl, hd⟩ hs'
  refine List.map_congr_left fun k hk => ?_
  have hk' : k < size := List.mem_range.mp hk
  have hm' : m ∈ s'.mappings := hs'.mappings_eq ▸ hm
  rw [← (hready k hk').shownByte, hd' m hm' _ (by omega), Nat.add_assoc]

theorem readWord_depicts (hi : Inv s) (hl : LazyInv s) (hd : Depicts memory s) :
    ReadSpec s (readWord address size) fun bytes _ => bytes = bytesAt memory address size := by
  unfold readWord
  refine .bind (find_spec hi Nat.one_pos _) fun found s1 hs1 hf => ?_
  obtain ⟨i, m⟩ := found
  have hm : m ∈ s1.mappings := hs1.mappings_eq ▸ hf.mem
  have hbase : m.base ≤ address := hf.base
  have hlimit : address + 1 ≤ m.base + m.size := hf.limit
  obtain ⟨hi1, hl1, hd1⟩ := followsWrites_depicts.touches ⟨hi, hl, hd⟩ hs1
  dsimp only
  split
  · next hone =>
    refine (loadChunk_depicts hi1 hl1 hd1 hm (hf.accessible (by decide)) (by omega)).mono
      fun bytes _ _ hb => ?_
    rw [hb, show m.base + (address - m.base) = address by omega]
  · exact readFrom_depicts _ _ _ hi1 hl1 hd1 le_rfl

/-- A word that is read is the one of the picture, and reading changes nothing. -/
theorem readWord_shown (hs : Shown memory s) (hno : NoneFails s address size) :
    Post (readWord address size) s
      (fun bytes s' => bytes = bytesAt memory address size ∧ SameMemory s s')
      fun _ s' => SameMemory s s' := by
  have hsame := (readWord_calm hs.regular hno).sameMemory hs.regular
  have hsettles := readWord_settles hs.regular hno
  unfold Post
  rcases hrun : readWord address size s with ⟨_ | bytes, s'⟩
  · rw [hrun] at hsame
    exact hsame
  · rw [hrun] at hsame
    rw [Settles, hrun] at hsettles
    exact ⟨(Post.of_ok (readWord_depicts hs.regular.inv.settled hs.regular.lazyInv hs.depicts)
      hsettles).2, hsame⟩

/-- A word whose bytes may all be read is read. -/
theorem readWord_returns (hr : Orderly s) (hno : NoneFails s address size) (hpos : 0 < size)
    (hreadable : ∀ k < size, s.ReadableAt (address + k))
    (hbacked : ∀ k < size, s.BackedAt (address + k)) :
    Post (readWord address size) s (fun _ _ => True) fun _ _ => False := by
  unfold readWord
  obtain ⟨i, m, hf, -⟩ := hreadable 0 hpos
  refine Post.bind (Post.mono (find_returns hr.inv hf) ?_ fun _ _ h => h)
  rintro found s1 ⟨rfl, hcalm⟩
  have hbase : m.base ≤ address := hf.base
  have hlimit : address + 1 ≤ m.base + m.size := hf.limit
  have hr1 := hcalm.orderly hr
  have hno1 := hcalm.noneFails hr hno
  have hm1 : m ∈ s1.mappings := hcalm.touches.mappings_eq ▸ hf.mem
  dsimp only
  split
  · next hone =>
    have hfits : address - m.base + size ≤ m.size := by omega
    obtain ⟨j, m', hf', hbacking⟩ := hbacked 0 hpos
    obtain ⟨-, rfl⟩ := hf.unique hr.inv hf'
    exact Post.mono (loadChunk_returns hr1 hm1 hbacking hfits
      (hno1.chunk hm1 hbase le_rfl hfits)) (fun _ _ _ => trivial) fun _ _ h => h
  · exact readFrom_returns size address size hr1 hno1
      (fun k hk => (hreadable k hk).of_mappings hcalm.touches.mappings_eq)
      fun k hk => (hbacked k hk).of_mappings hcalm.touches.mappings_eq

/-- A word that is read may be read. -/
theorem readWord_readable (hr : Regular s) :
    Post (readWord address size) s (fun _ _ => ∀ k < size, s.ReadableAt (address + k))
      fun _ _ => True := by
  unfold readWord
  refine Post.bind (Post.mono (Post.with_run (find_spec hr.inv Nat.one_pos _)) ?_
    fun _ _ _ => trivial)
  rintro ⟨i, m⟩ s1 ⟨-, hfind⟩
  obtain ⟨hcalm, hf⟩ := found_of_find hr.inv hfind
  have hindex : s.mappings[i]? = some m := hf.index
  have hbase : m.base ≤ address := hf.base
  have hlimit : address + 1 ≤ m.base + m.size := hf.limit
  dsimp only
  split
  · next hone =>
    refine Post.mono (Post.of_final (P := fun _ => True) trivial) (fun _ _ _ k hk => ?_)
      fun _ _ _ => trivial
    exact ⟨i, m, ⟨hindex, by omega, by omega, hf.permitted⟩, .inl hone.1⟩
  · refine Post.mono (readFrom_seen size address size (hcalm.regular hr) le_rfl) ?_
      fun _ _ _ => trivial
    intro _ _ hseen k hk
    exact (hseen.2 k hk).of_mappings hcalm.touches.mappings_eq.symm

/-- A word is read exactly if its bytes may all be read. -/
theorem readWord_returns_iff (hr : Regular s) (hno : NoneFails s address size) (hpos : 0 < size) :
    (∃ bytes s', readWord address size s = (.ok bytes, s')) ↔
      ∀ k < size, s.ReadableAt (address + k) := by
  constructor
  · rintro ⟨bytes, s', hrun⟩
    exact Post.of_ok (readWord_readable hr) hrun
  · intro hall
    have hreturns := readWord_returns hr hno hpos hall fun k hk => hr.backedAt (hall k hk)
    unfold Post at hreturns
    rcases hrun : readWord address size s with ⟨_ | bytes, s'⟩
    · rw [hrun] at hreturns
      exact hreturns.elim
    · exact ⟨bytes, s', rfl⟩

/-! ## Writes -/

/-- Bytes that are written may be written. -/
theorem writeBytes_mayWrite (hi : Inv s) {data : List Byte} :
    Post (writeBytes address data) s (fun _ _ => ∀ k < data.length, s.MayWrite (address + k))
      fun _ _ => True := by
  unfold writeBytes
  split
  · next hnil => exact Post.pure fun k hk => by simp [hnil] at hk
  · refine Post.bind (Post.mono (find_spec hi Nat.one_pos _) ?_ fun _ _ _ => trivial)
    rintro ⟨i, m⟩ s1 ⟨hs1, hf⟩
    have hi1 := hs1.inv hi
    have hbase : m.base ≤ address := hf.base
    have hlimit : address + 1 ≤ m.base + m.size := hf.limit
    dsimp only
    split
    · next hone =>
      have hall : ∀ k < data.length, s.MayWrite (address + k) :=
        fun k hk => ⟨i, m, hf.index, by omega, by omega, hf.permitted⟩
      refine Post.bind (Post.mono (Post.of_final (P := fun _ => True) trivial) (fun _ _ _ => ?_)
        fun _ _ _ => trivial)
      exact Post.bind (Post.mono (Post.of_final (P := fun _ => True) trivial)
        (fun _ _ _ => Post.modify hall) fun _ _ _ => trivial)
    · refine Post.bind (Post.mono (validateWrite_spec _ _ _ hi1 le_rfl) ?_ fun _ _ _ => trivial)
      rintro flag s2 ⟨hs2, hw, -⟩
      have hall : ∀ k < data.length, s.MayWrite (address + k) := by
        intro k hk
        obtain ⟨j, m', hf', -⟩ := hw k hk
        exact ⟨j, m', hf'.of_mappings (hs1.mappings_eq.symm.trans hs2.mappings_eq.symm)⟩
      exact Post.bind (Post.mono (Post.of_final (P := fun _ => True) trivial)
        (fun _ _ _ => Post.modify hall) fun _ _ _ => trivial)

/-- Bytes that are written replace the ones of the picture. -/
theorem writeBytes_shown {data : List Byte} (hs : Shown memory s)
    (hno : NoneFails s address data.length) :
    Post (writeBytes address data) s
      (fun _ s' => Shown (overwrite memory address data) s' ∧ SamePermits s s' ∧
        ∀ a n, NoneFails s a n → NoneFails s' a n)
      fun _ s' => SameMemory s s' := by
  have hwritten := writeBytes_written hs.regular hno
  unfold Post at hwritten ⊢
  rcases hrun : writeBytes address data s with ⟨e | u, s'⟩
  · rw [hrun] at hwritten
    exact hwritten.memory
  · rw [hrun] at hwritten
    obtain ⟨hr', hpages, -⟩ := writeBytes_ok hs.regular hno hrun
    obtain ⟨flag, s1, htouches, rfl⟩ :=
      Post.of_ok (writeBytes_spec hs.regular.inv address data) hrun
    exact ⟨⟨hr', hwritten.bytes memory hs.depicts⟩, htouches.samePermits, hpages⟩

/-- A write returns exactly if its bytes may all be written. -/
theorem writeBytes_returns_iff (hr : Regular s) {data : List Byte}
    (hno : NoneFails s address data.length) :
    (∃ s', writeBytes address data s = (.ok (), s')) ↔
      ∀ k < data.length, s.MayWrite (address + k) := by
  constructor
  · rintro ⟨s', hrun⟩
    exact Post.of_ok (writeBytes_mayWrite hr.inv) hrun
  · intro hall
    have hreturns := writeBytes_returns hr hno hall
    unfold Post at hreturns
    rcases hrun : writeBytes address data s with ⟨_ | _, s'⟩
    · rw [hrun] at hreturns
      exact hreturns.elim
    · exact ⟨s', rfl⟩

/-- A word is written exactly if its bytes may all be written. -/
theorem writeWord_returns_iff (hr : Regular s) (value : BitVec 64)
    (hno : NoneFails s address size) :
    (∃ s', writeWord address size value s = (.ok (), s')) ↔
      ∀ k < size, s.MayWrite (address + k) := by
  have hlength : (wordBytes size value).length = size := length_littleEndian ..
  have hiff := writeBytes_returns_iff hr (show NoneFails s address (wordBytes size value).length by rwa [hlength])
  rwa [hlength] at hiff

/-! ## Checks -/

theorem validateFrom_returns (required : Permission) :
    ∀ (fuel cursor remaining : Nat) {s : AddressSpace}, Inv s →
      (∀ k < remaining, ∃ i m, Found s (cursor + k) 1 required i m) →
      Post (validateFrom required fuel cursor remaining) s (fun _ _ => True) fun _ _ => False
  | 0, _, _, _, _, _ => Post.pure trivial
  | fuel + 1, cursor, remaining, s, hi, hfound => by
    rw [validateFrom]
    split
    · exact Post.pure trivial
    · obtain ⟨i, m, hf⟩ := hfound 0 (by omega)
      refine Post.bind (Post.mono (find_returns hi hf) ?_ fun _ _ h => h)
      rintro found s1 ⟨rfl, hcalm⟩
      dsimp only
      generalize hchunk : min remaining (m.size - (cursor - m.base)) = chunk
      obtain ⟨-, -, -, -, hnext⟩ : ChunkAt m cursor remaining chunk := hf.chunk hi hchunk
      rw [Nat.mod_eq_of_lt hnext]
      refine validateFrom_returns required fuel (cursor + chunk) (remaining - chunk)
        (hcalm.touches.inv hi) fun k hk => ?_
      obtain ⟨j, m', hf'⟩ := hfound (chunk + k) (by omega)
      rw [← Nat.add_assoc] at hf'
      exact ⟨j, m', hf'.of_mappings hcalm.touches.mappings_eq⟩

/-- A check returns exactly if every byte is in a mapping with the permission. -/
theorem validateAccess_found (hi : Inv s) (address size : Nat) (required : Permission) :
    Post (validateAccess address size required) s
      (fun _ s' => Calm s s' ∧ ∀ k < size, ∃ i m, Found s (address + k) 1 required i m)
      fun _ s' => Calm s s' ∧ ¬∀ k < size, ∃ i m, Found s (address + k) 1 required i m := by
  have hcalm := validateAccess_calm hi address size required
  have hfound := validateFrom_found required size address size hi le_rfl
  unfold Post at hfound ⊢
  rw [← validateAccess] at hfound
  rcases hrun : validateAccess address size required s with ⟨e | u, s'⟩
  · rw [hrun] at hcalm
    refine ⟨hcalm, fun hall => ?_⟩
    have hreturns := validateFrom_returns required size address size hi hall
    unfold Post at hreturns
    rw [← validateAccess, hrun] at hreturns
    exact hreturns
  · rw [hrun] at hcalm hfound
    exact ⟨hcalm, hfound⟩

/-! ## Accesses that are permitted or not -/

/-- A word is read, or a byte of it may not be read. -/
theorem readWord_permits (hs : Shown memory s) (hno : NoneFails s address size)
    (hsize : 0 < size) :
    Post (readWord address size) s
      (fun bytes s' => Calm s s' ∧ bytes = bytesAt memory address size ∧
        ∀ k < size, s.ReadableAt (address + k))
      fun _ s' => Calm s s' ∧ ¬∀ k < size, s.ReadableAt (address + k) := by
  have hcalm := readWord_calm hs.regular hno
  have hshown := readWord_shown hs hno
  have hiff := readWord_returns_iff hs.regular hno hsize
  unfold Post at hshown ⊢
  rcases hrun : readWord address size s with ⟨e | bytes, s'⟩
  · rw [hrun] at hcalm
    refine ⟨hcalm, fun hall => ?_⟩
    obtain ⟨bytes, s'', hok⟩ := hiff.mpr hall
    rw [hrun] at hok
    cases hok
  · rw [hrun] at hcalm hshown
    exact ⟨hcalm, hshown.1, hiff.mp ⟨bytes, s', hrun⟩⟩

/-- Bytes are written, or one of them may not be written. -/
theorem writeBytes_permits (hs : Shown memory s) {data : List Byte}
    (hno : NoneFails s address data.length) :
    Post (writeBytes address data) s
      (fun _ s' => Shown (overwrite memory address data) s' ∧
        (∀ a n, NoneFails s a n → NoneFails s' a n) ∧
        ∀ k < data.length, s.MayWrite (address + k))
      fun _ s' => SameMemory s s' ∧ ¬∀ k < data.length, s.MayWrite (address + k) := by
  have hshown := writeBytes_shown hs hno
  have hiff := writeBytes_returns_iff hs.regular hno
  unfold Post at hshown ⊢
  rcases hrun : writeBytes address data s with ⟨e | u, s'⟩
  · rw [hrun] at hshown
    refine ⟨hshown, fun hall => ?_⟩
    obtain ⟨s'', hok⟩ := hiff.mpr hall
    rw [hrun] at hok
    cases hok
  · rw [hrun] at hshown
    exact ⟨hshown.1, hshown.2.2, hiff.mp ⟨s', hrun⟩⟩

theorem readInto_permits (hs : Shown memory s)
    (hno : NoneFails s address size) :
    Post (readInto address size) s
      (fun bytes s' => Calm s s' ∧ bytes = bytesAt memory address size ∧
        ∀ k < size, s.ReadableAt (address + k))
      fun _ s' => Calm s s' ∧ ¬∀ k < size, s.ReadableAt (address + k) := by
  have hcalm := readInto_calm hs.regular hno
  have hiff := readInto_returns_iff hs.regular address size
  unfold Post
  rcases hrun : readInto address size s with ⟨e | bytes, s'⟩
  · rw [hrun] at hcalm hiff
    refine ⟨hcalm, fun hall => ?_⟩
    obtain ⟨bytes, hok⟩ := hiff.mpr fun k hk => ⟨hall k hk, noneFails_iff.mp hno k hk⟩
    cases hok
  · rw [hrun] at hcalm
    have hok : (readInto address size s).1 = .ok bytes := by rw [hrun]
    exact ⟨hcalm, readInto_bytes hs.regular hs.depicts hok, fun k hk => (hiff.mp ⟨_, hok⟩ k hk).1⟩

theorem overwrite_self (memory : Nat → Byte) (address size : Nat) :
    overwrite memory address (bytesAt memory address size) = memory := by
  funext i
  unfold overwrite bytesAt
  split
  · next hle =>
    by_cases hlt : i - address < size
    · simp [hlt, Nat.add_sub_cancel' hle]
    · simp [Nat.le_of_not_lt hlt]
  · rfl

/-- Bytes that may all be written are written. -/
theorem writeBytes_may (hs : Shown memory s) {data : List Byte}
    (hno : NoneFails s address data.length) (hall : ∀ k < data.length, s.MayWrite (address + k)) :
    ∃ s', writeBytes address data s = (.ok (), s') ∧ Shown (overwrite memory address data) s' ∧
      SamePermits s s' ∧ ∀ a n, NoneFails s a n → NoneFails s' a n := by
  obtain ⟨s', hrun⟩ := (writeBytes_returns_iff hs.regular hno).mpr hall
  have hshown := writeBytes_shown hs hno
  unfold Post at hshown
  rw [hrun] at hshown
  exact ⟨s', hrun, hshown⟩

/-- The bytes that may all be written are found by a check. -/
theorem validateAccess_may (hr : Regular s) (hall : ∀ k < size, s.MayWrite (address + k)) :
    ∃ s', validateAccess address size { write := true } s = (.ok (), s') ∧ Calm s s' := by
  have hfound := validateAccess_found hr.inv address size { write := true }
  unfold Post at hfound
  rcases hrun : validateAccess address size { write := true } s with ⟨e | u, s'⟩
  · rw [hrun] at hfound
    exact absurd hall hfound.2
  · rw [hrun] at hfound
    exact ⟨s', rfl, hfound.1⟩

/-- Bytes that may all be read are those of the picture. -/
theorem readInto_may (hs : Shown memory s) (hno : NoneFails s address size)
    (hall : ∀ k < size, s.ReadableAt (address + k)) :
    (readInto address size s).1 = .ok (bytesAt memory address size) := by
  obtain ⟨bytes, hrun⟩ := (readInto_returns_iff hs.regular address size).mpr fun k hk =>
    ⟨hall k hk, noneFails_iff.mp hno k hk⟩
  rw [hrun, readInto_bytes hs.regular hs.depicts hrun]

/-- Bytes elsewhere are as before. -/
theorem bytesAt_overwrite_apart {data : List Byte} {other : Nat}
    (h : other + data.length ≤ address ∨ address + size ≤ other) :
    bytesAt (overwrite memory other data) address size = bytesAt memory address size := by
  refine List.map_congr_left fun k hk => ?_
  have hlt : k < size := List.mem_range.mp hk
  unfold overwrite
  split
  · rw [List.getElem?_eq_none (by omega), Option.getD_none]
  · rfl

theorem NoneFails.of_le {n : Nat} (h : NoneFails s address size) (hn : n ≤ size) :
    NoneFails s address n := noneFails_iff.mpr fun k hk => noneFails_iff.mp h k (by omega)

end AddressSpace

end Rosa
