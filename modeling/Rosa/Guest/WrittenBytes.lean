import Rosa.Guest.SettledPages

/-!
# What a write leaves in memory

A picture of guest memory gives a byte to every address. A space depicts it if every mapping
shows the bytes of the picture (`Depicts`), whether they are in a vector, in a file or still to
be transformed. A write that returns overwrites the picture at its address, and a read that
returns gives the bytes of the picture, so what was written is read back and nothing else has
changed. A write that throws leaves the space as it was, as long as no page whose callback
throws is in its way.
-/

namespace Rosa

namespace AddressSpace

open Rosa.Computation

variable {s s' : AddressSpace} {m m0 : Mapping} {memory : Nat → Byte}

/-- The mappings show the bytes of the picture. -/
def Depicts (memory : Nat → Byte) (s : AddressSpace) : Prop :=
  ∀ m ∈ s.mappings, ∀ o < m.size, s.shownByte m o = memory (m.base + o)

/-- Every space depicts some memory. -/
theorem exists_depicts (hi : Inv s) : ∃ memory, Depicts memory s := by
  refine ⟨fun a => (mappingContaining s.mappings a).elim 0 fun m => s.shownByte m (a - m.base),
    fun m hm o ho => ?_⟩
  obtain ⟨i, hi'⟩ := List.getElem?_of_mem hm
  have hholding : mappingHolding s.mappings (m.base + o) 1 = some (i, m) :=
    (mappingHolding_iff hi.sorted Nat.one_pos).mpr ⟨hi', by omega, by omega⟩
  simp [mappingContaining, hholding]

/-! ## Writes -/

theorem overwrite_of_mem {contents : Nat → Byte} {offset k : Nat} {bytes : List Byte}
    (hk : k < bytes.length) : overwrite contents offset bytes (offset + k) = bytes[k] := by
  simp [overwrite, hk]

/-- A store shows in the mapping it goes to. -/
theorem shownByte_storeBytes (hi : Inv s) (hl : LazyInv s) (hd : Depicts memory s) {i offset : Nat}
    {data : List Byte} {f : FileId} (hm : s.mappings[i]? = some m) (hfile : m.fileBytes = some f)
    (hready : ∀ k < data.length, s.Ready m (offset + k)) {o : Nat} (ho : o < m.size) :
    (storeBytes i m offset data s).shownByte m o =
      overwrite memory (m.base + offset) data (m.base + o) := by
  have hmem := List.mem_of_getElem? hm
  have hdata : ((storeBytes i m offset data s).files f).data =
      overwrite (s.files f).data (m.fileDataOffset + offset) data := by
    simp [storeBytes, hfile]
  have htransforms : (storeBytes i m offset data s).transforms = s.transforms := by
    simp [storeBytes, hfile]
  by_cases hin : offset ≤ o ∧ o - offset < data.length
  · -- a stored byte is on a page that is ready
    obtain ⟨k, rfl⟩ := Nat.exists_eq_add_of_le hin.1
    have hk : k < data.length := by omega
    have hready' : (storeBytes i m offset data s).Ready m (offset + k) := by
      intro t ht
      rw [htransforms]
      exact hready k hk t ht
    rw [hready'.shownByte, contents, hfile]
    dsimp only
    rw [hdata, ← Nat.add_assoc, ← Nat.add_assoc, overwrite_of_mem hk, overwrite_of_mem hk]
  · have hsame : overwrite memory (m.base + offset) data (m.base + o) = memory (m.base + o) :=
      overwrite_of_not_mem fun k hk => by omega
    have hown : ((storeBytes i m offset data s).files f).data (m.fileDataOffset + o) =
        (s.files f).data (m.fileDataOffset + o) := by
      rw [hdata]
      exact overwrite_of_not_mem fun k hk => by omega
    rw [hsame, ← hd m hmem o ho]
    unfold shownByte contents
    cases hlazy : m.lazyFileTransform with
    | none => simp only [hfile, hown]
    | some t =>
      obtain ⟨-, -, hlow, hhigh, -⟩ := (hi.shaped m hmem).lazyTransform t hlazy
      simp only [hfile, htransforms]
      refine (shown_congr (hl.pageLocal m hmem t hlazy) ⟨by omega, by omega⟩ hown
        fun hnew j hj hpage => ?_).2
      rw [hdata]
      refine overwrite_of_not_mem fun k hk he => ?_
      have := hready k hk t hlazy
      rw [pageOf_eq_filePage, ← Nat.add_assoc, ← he, hpage, hnew] at this
      cases this

/-- A store overwrites the picture. -/
theorem Depicts.storeBytes (hi : Inv s) (hl : LazyInv s) (hd : Depicts memory s) {i offset : Nat}
    {data : List Byte} (hm : s.mappings[i]? = some m) (hfits : offset + data.length ≤ m.size)
    (hready : ∀ k < data.length, s.Ready m (offset + k)) :
    Depicts (overwrite memory (m.base + offset) data) (storeBytes i m offset data s) := by
  have hmem := List.mem_of_getElem? hm
  intro a ha o ho
  have hother : ∀ b ∈ s.mappings, b ≠ m → a = b →
      (AddressSpace.storeBytes i m offset data s).shownByte a o =
        overwrite memory (m.base + offset) data (a.base + o) := by
    rintro b hb hne rfl
    rw [((sameBytes_storeBytes hi hl hb hm hne hfits hready).2 o ho).2, hd a hb o ho]
    refine (overwrite_of_not_mem fun k hk he => hne ?_).symm
    obtain ⟨j, hj⟩ := List.getElem?_of_mem hb
    obtain rfl := hi.sorted.unique hj hm (by omega) (by omega)
    simpa [hj] using hm
  cases hfile : m.fileBytes with
  | some f =>
    have hmappings : (AddressSpace.storeBytes i m offset data s).mappings = s.mappings := by
      simp [AddressSpace.storeBytes, hfile]
    rw [hmappings] at ha
    by_cases hne : a = m
    · subst hne
      exact shownByte_storeBytes hi hl hd hm hfile hready ho
    · exact hother a ha hne rfl
  | none =>
    have hmappings : (AddressSpace.storeBytes i m offset data s).mappings = s.mappings.set i
        { m with bytes := ⟨m.bytes.size, overwrite m.bytes.get offset data⟩ } := by
      simp [AddressSpace.storeBytes, hfile]
    rw [hmappings] at ha
    by_cases hnew : a = { m with bytes := ⟨m.bytes.size, overwrite m.bytes.get offset data⟩ }
    · have hold : m.bytes.get (0 + o) = memory (m.base + o) := by
        rw [← hd m hmem o (by simpa [hnew] using ho), Nat.zero_add]
        simp only [shownByte, contents, hfile]
      subst hnew
      simp only [shownByte, contents, hfile]
      have : overwrite m.bytes.get offset data (0 + o) =
          overwrite memory (m.base + offset) data (m.base + o) := overwrite_shift hold (by omega)
      rwa [Nat.zero_add] at this
    · rcases List.mem_or_eq_of_mem_set ha with hb | rfl
      · refine hother a hb ?_ rfl
        rintro rfl
        exact not_mem_set_of_sorted hi hm (Ne.symm hnew) ha
      · exact absurd rfl hnew

/-- The picture of a space with its invariants follows the writes. -/
theorem followsWrites_depicts :
    FollowsWrites fun memory s => Inv s ∧ LazyInv s ∧ Depicts memory s where
  touches := by
    rintro memory s s' ⟨hi, hl, hd⟩ hs
    refine ⟨hs.inv hi, hl.of_sameShape hs.sameShape, fun m hm o ho => ?_⟩
    rw [hs.mappings_eq] at hm
    rw [((hs.sameBytes hi hl hm) o ho).2, hd m hm o ho]
  stores := by
    rintro memory s i offset m data ⟨hi, hl, hd⟩ hm hfits hready
    have htouch : Touches (fun _ => True) s (storeBytes i m offset data s) :=
      .single (.store hm trivial hfits hready)
    exact ⟨htouch.inv hi, hl.of_sameShape htouch.sameShape, hd.storeBytes hi hl hm hfits hready⟩
  bumps := by
    rintro memory s flag ⟨hi, hl, hd⟩
    exact ⟨bumped_inv hi, hl.bump, hd⟩

/-! ## Reads -/

theorem bytesAt_append (memory : Nat → Byte) (address n k : Nat) :
    bytesAt memory address n ++ bytesAt memory (address + n) k = bytesAt memory address (n + k) := by
  simp only [bytesAt, List.range_add, List.map_append, List.map_map]
  congr 1
  refine List.map_congr_left fun i _ => ?_
  rw [Function.comp_apply, Nat.add_assoc]

/-- A read that returns gives the bytes of the picture. -/
theorem readFrom_depicts : ∀ (fuel cursor remaining : Nat) {s : AddressSpace}, Inv s → LazyInv s →
    Depicts memory s → remaining ≤ fuel →
    ReadSpec s (readFrom fuel cursor remaining) fun bytes _ =>
      bytes = bytesAt memory cursor remaining
  | 0, _, remaining, _, _, _, _, hfuel => .pure (by simp [Nat.le_zero.mp hfuel, bytesAt])
  | fuel + 1, cursor, remaining, s, hi, hl, hd, hfuel => by
    rw [readFrom]
    split
    · next hzero => exact .pure (by simp [hzero, bytesAt])
    · refine .bind (find_spec hi Nat.one_pos _) fun found s1 hs1 hf => ?_
      obtain ⟨i, m⟩ := found
      have hm : m ∈ s1.mappings := hs1.mappings_eq ▸ hf.mem
      dsimp only at hf ⊢
      generalize hchunk : min remaining (m.size - (cursor - m.base)) = chunk
      obtain ⟨hbase, hfits, hle, hpos, hnext⟩ := hf.chunk hi hchunk
      refine .bind (checkReadable_spec (hs1.inv hi) hm hfits) fun _ s2 hs2 _ => ?_
      obtain ⟨hi2, hl2, hd2⟩ := followsWrites_depicts.touches
        (followsWrites_depicts.touches ⟨hi, hl, hd⟩ hs1) hs2
      refine .bind (loadChunk_spec hi2 (hs2.mappings_eq ▸ hm) (hf.accessible (by decide)) hfits)
        fun bytes s3 hs3 hb => ?_
      obtain ⟨rfl, hready⟩ := hb
      obtain ⟨hi3, hl3, hd3⟩ := followsWrites_depicts.touches ⟨hi2, hl2, hd2⟩ hs3
      rw [Nat.mod_eq_of_lt hnext]
      refine .bind (readFrom_depicts fuel _ _ hi3 hl3 hd3 (by omega)) fun rest _ _ hrest =>
        .pure ?_
      -- the bytes of the chunk are ready, so the mapping shows what it holds
      have hchunkBytes : bytesAt (s3.contents m) (cursor - m.base) chunk =
          bytesAt memory cursor chunk := by
        refine List.map_congr_left fun k hk => ?_
        have hk' : k < chunk := List.mem_range.mp hk
        have hm3 : m ∈ s3.mappings := by
          rw [hs3.mappings_eq, hs2.mappings_eq]
          exact hm
        rw [← (hready k hk').shownByte, hd3 m hm3 _ (by omega),
          show m.base + (cursor - m.base + k) = cursor + k by omega]
      rw [hrest, hchunkBytes, bytesAt_append, show chunk + (remaining - chunk) = remaining by omega]

theorem bytesAt_overwrite (memory : Nat → Byte) (address : Nat) (data : List Byte) :
    bytesAt (overwrite memory address data) address data.length = data := by
  refine List.ext_getElem (by simp [bytesAt]) fun k hk hk' => ?_
  simp only [bytesAt, List.getElem_map, List.getElem_range]
  exact overwrite_of_mem hk'

/-- The byte may be read : its mapping is readable and, if it is sparse, has the byte. -/
def ReadableAt (s : AddressSpace) (address : Nat) : Prop :=
  ∃ i m, Found s address 1 { read := true } i m ∧
    (m.readableBytes.size = 0 ∨ m.readableBytes.get (address - m.base) = true)

theorem ReadableAt.of_mappings {address : Nat} (h : s.ReadableAt address)
    (hs : s'.mappings = s.mappings) : s'.ReadableAt address := by
  obtain ⟨i, m, hf, hr⟩ := h
  exact ⟨i, m, hf.of_mappings hs, hr⟩

/-- The mapping that the byte is read from has backing. -/
def BackedAt (s : AddressSpace) (address : Nat) : Prop :=
  ∃ i m, Found s address 1 { read := true } i m ∧ m.HasBacking

theorem BackedAt.of_mappings {address : Nat} (h : s.BackedAt address)
    (hs : s'.mappings = s.mappings) : s'.BackedAt address := by
  obtain ⟨i, m, hf, hb⟩ := h
  exact ⟨i, m, hf.of_mappings hs, hb⟩

theorem Regular.hasBacking (hr : Regular s) (hm : m ∈ s.mappings) (hp : m.permissions ≠ .none) :
    m.HasBacking :=
  hr.backed m hm (Permission.ne_none_of_has (hr.inv.placed m hm).within hp)

theorem Regular.backedAt (hr : Regular s) {address : Nat} (h : s.ReadableAt address) :
    s.BackedAt address := by
  obtain ⟨i, m, hf, -⟩ := h
  exact ⟨i, m, hf, hr.hasBacking hf.mem (Permission.ne_none_of_has hf.permitted (by decide))⟩

theorem checkReadable_returns (hi : Inv s) (hm : m ∈ s.mappings) {offset size : Nat}
    (hfits : offset + size ≤ m.size)
    (hr : m.readableBytes.size = 0 ∨ ∀ k < size, m.readableBytes.get (offset + k) = true) :
    Post (checkReadable m offset size) s (fun _ s' => s' = s) fun _ _ => False := by
  unfold checkReadable
  split
  · exact Post.pure rfl
  · next hne =>
    have hsize : m.readableBytes.size = m.size := by
      rcases (hi.shaped m hm).readable with h | h
      · exact absurd h hne
      · exact h.1
    refine Post.bind (Post.raiseIf (fun hc => ?_) fun _ => Post.raiseIf (fun hc => ?_) fun _ => rfl)
    · simp only [decide_eq_true_eq] at hc
      omega
    · obtain ⟨k, hk, hbad⟩ := List.any_eq_true.mp hc
      rw [hr.resolve_left hne k (List.mem_range.mp hk)] at hbad
      cases hbad

theorem loadChunk_returns (hr : Orderly s) (hm : m ∈ s.mappings) (hb : m.HasBacking)
    {offset size : Nat} (hfits : offset + size ≤ m.size)
    (hno : ∀ k < size, s.pageFails m (offset + k) = false) :
    Post (loadChunk m offset size) s (fun _ s' => Calm s s') fun _ _ => False := by
  unfold loadChunk
  split
  · next file hfile =>
    refine Post.bind (Post.mono (materializeFileBytes_returns hr hm hfits hno) ?_ fun _ _ h => h)
    intro _ s' hcalm
    refine Post.bind (Post.get (Post.bind (Post.raiseIf (fun hc => ?_) fun _ => Post.pure hcalm)))
    have := ((hr.inv.shaped m hm).file file hfile).2
    rw [hcalm.touches.sameShape.files, decide_eq_true_eq] at hc
    omega
  · next hfile =>
    refine Post.bind (Post.raiseIf (fun hc => ?_) fun _ => Post.pure (.refl s))
    simp only [Mapping.HasBacking, hfile, Option.isSome_none, Bool.false_eq_true,
      false_or] at hb
    simp only [decide_eq_true_eq] at hc
    omega

/-- A read of bytes that may be read and meet no throwing page does not throw. -/
theorem readFrom_returns : ∀ (fuel cursor remaining : Nat) {s : AddressSpace}, Orderly s →
    NoneFails s cursor remaining → (∀ k < remaining, s.ReadableAt (cursor + k)) →
    (∀ k < remaining, s.BackedAt (cursor + k)) →
    Post (readFrom fuel cursor remaining) s (fun _ _ => True) fun _ _ => False
  | 0, _, _, _, _, _, _, _ => Post.pure trivial
  | fuel + 1, cursor, remaining, s, hr, hno, hreadable, hbacked => by
    rw [readFrom]
    split
    · exact Post.pure trivial
    · obtain ⟨i, m, hf, -⟩ := hreadable 0 (by omega)
      refine Post.bind (Post.mono (find_returns hr.inv hf) ?_ fun _ _ h => h)
      rintro found s1 ⟨rfl, hcalm⟩
      dsimp only
      generalize hchunk : min remaining (m.size - (cursor - m.base)) = chunk
      obtain ⟨hbase, hfits, hle, hpos, hnext⟩ : ChunkAt m cursor remaining chunk :=
        hf.chunk hr.inv hchunk
      have hr1 := hcalm.orderly hr
      have hno1 := hcalm.noneFails hr hno
      have hm1 : m ∈ s1.mappings := hcalm.touches.mappings_eq ▸ hf.mem
      have hbacking : m.HasBacking := by
        obtain ⟨j, m', hf', hb⟩ := hbacked 0 (by omega)
        obtain ⟨-, rfl⟩ := hf.unique hr.inv hf'
        exact hb
      have hthere : m.readableBytes.size = 0 ∨
          ∀ k < chunk, m.readableBytes.get (cursor - m.base + k) = true := by
        refine or_iff_not_imp_left.mpr fun hne k hk => ?_
        obtain ⟨j, m', hf', hget⟩ := hreadable k (by omega)
        have hk' : Found s (cursor + k) 1 { read := true } i m :=
          ⟨hf.index, by omega, by omega, hf.permitted⟩
        obtain ⟨-, rfl⟩ := hk'.unique hr.inv hf'
        rw [show cursor - m.base + k = cursor + k - m.base by omega]
        exact hget.resolve_left hne
      refine Post.bind (Post.mono (checkReadable_returns hr1.inv hm1 hfits hthere) ?_
        fun _ _ h => h)
      rintro _ _ rfl
      refine Post.bind (Post.mono (loadChunk_returns hr1 hm1 hbacking hfits
        (hno1.chunk hm1 hbase (by omega) hfits)) ?_ fun _ _ h => h)
      intro _ s2 hcalm2
      rw [Nat.mod_eq_of_lt hnext]
      refine Post.bind (Post.mono (readFrom_returns fuel (cursor + chunk) (remaining - chunk)
        (hcalm2.orderly hr1) ((hcalm2.noneFails hr1 hno1).drop chunk (by omega)) ?_ ?_)
        (fun _ _ _ => Post.pure trivial) fun _ _ h => h)
      · intro k hk
        have := hreadable (chunk + k) (by omega)
        rw [← Nat.add_assoc] at this
        exact this.of_mappings (hcalm.trans hcalm2).touches.mappings_eq
      · intro k hk
        have := hbacked (chunk + k) (by omega)
        rw [← Nat.add_assoc] at this
        exact this.of_mappings (hcalm.trans hcalm2).touches.mappings_eq

/-! ## All or nothing -/

/-- What a write that returns has done : its bytes are in their places, all others are as they
were, and a read of the range gives the bytes, if the range may be read. -/
structure Written (s : AddressSpace) (address : Nat) (data : List Byte) (s' : AddressSpace) :
    Prop where
  shape : SameShape s s'
  bytes : ∀ memory, Depicts memory s.settled → Depicts (overwrite memory address data) s'.settled
  pages : ∀ a n, NoneFails s a n → NoneFails s' a n
  readBack : ∀ read, (readInto address data.length s').1 = .ok read → read = data
  readable : (∀ k < data.length, s'.ReadableAt (address + k)) →
    (readInto address data.length s').1 = .ok data

/-- A write that throws has changed neither bytes nor mappings nor the count of changes. -/
structure NotWritten (s s' : AddressSpace) : Prop where
  memory : SameMemory s s'
  version : s'.executableVersion = s.executableVersion

/-- A write that throws has not counted. -/
theorem writeBytes_version (hi : Inv s) (address : Nat) (data : List Byte) :
    Post (writeBytes address data) s (fun _ _ => True)
      fun _ s' => s'.executableVersion = s.executableVersion := by
  unfold writeBytes
  split
  · exact Post.pure trivial
  · refine Post.bind (Post.mono (find_spec hi Nat.one_pos _) ?_ fun _ _ h => h.1.executableVersion)
    rintro ⟨i, m⟩ s1 ⟨hs1, hf⟩
    have hi1 := hs1.inv hi
    have hm1 : s1.mappings[i]? = some m := by rw [hs1.mappings_eq]; exact hf.index
    have hbase : m.base ≤ address := hf.base
    have hlimit : address + 1 ≤ m.base + m.size := hf.limit
    have hacc := hf.accessible (by decide)
    have hkept {allowed : Mapping → Prop} {s' : AddressSpace} (hs : Touches allowed s1 s') :
        s'.executableVersion = s.executableVersion :=
      hs.executableVersion.trans hs1.executableVersion
    dsimp only
    split
    · refine Post.bind (Post.mono (materializeFileBytes_spec hi1 (List.mem_of_getElem? hm1)
        (by omega)) ?_ fun _ _ h => hkept h.1)
      rintro _ s2 ⟨hs2, -⟩
      refine Post.bind (Post.mono (storeChunk_spec (hs2.inv hi1) (by rw [hs2.mappings_eq]; exact hm1)
        hacc (by omega)) (fun _ _ _ => Post.modify trivial) ?_)
      rintro _ _ ⟨rfl, -⟩
      exact hkept hs2
    · refine Post.bind (Post.mono (validateWrite_spec _ _ _ hi1 le_rfl) ?_ fun _ _ h => hkept h.1)
      rintro flag s2 ⟨hs2, hw, -⟩
      refine Post.bind (Post.mono (copyBytes_spec _ _ data (hs2.inv hi1) le_rfl hw)
        (fun _ _ _ => Post.modify trivial) ?_)
      rintro _ _ ⟨hs3, -⟩
      rw [hs3.executableVersion]
      exact hkept hs2

/-- A write that meets no throwing page stores all its bytes or changes nothing. -/
theorem writeBytes_written (hr : Regular s) {address : Nat} {data : List Byte}
    (hno : NoneFails s address data.length) :
    Post (writeBytes address data) s (fun _ s' => Written s address data s')
      fun _ s' => NotWritten s s' := by
  have hversion := writeBytes_version hr.inv address data
  unfold Post at hversion ⊢
  rcases hrun : writeBytes address data s with ⟨_ | _, s'⟩
  · rw [hrun] at hversion
    exact ⟨writeBytes_error hr hno hrun, hversion⟩
  · obtain ⟨hr', hpages, -⟩ := writeBytes_ok hr hno hrun
    have hsettles := writeBytes_settles hr hno
    rw [Settles, hrun] at hsettles
    have hbytes (memory : Nat → Byte) (hd : Depicts memory s.settled) :
        Depicts (overwrite memory address data) s'.settled :=
      (Post.of_ok (followsWrites_depicts.writeBytes ⟨hr.inv.settled, hr.lazyInv, hd⟩
        hr.inv.settled hr.backed address data) hsettles).2.2
    have hno' := hpages _ _ hno
    have hback (read : List Byte) (hread : (readInto address data.length s').1 = .ok read) :
        read = data := by
      obtain ⟨memory, hd⟩ := exists_depicts hr.inv.settled
      have hsettled := readFrom_settles data.length address data.length hr' hno'
      have hok : readFrom data.length address data.length s'.settled =
          (.ok read, (readInto address data.length s').2.settled) := by
        rw [hsettled]
        exact Prod.ext hread rfl
      have hpicture := (Post.of_ok (readFrom_depicts data.length address data.length
        hr'.inv.settled hr'.lazyInv (hbytes memory hd) le_rfl) hok).2
      rw [hpicture, bytesAt_overwrite]
    refine ⟨?_, hbytes, hpages, hback, fun hreadable => ?_⟩
    · obtain ⟨flag, s1, htouches, rfl⟩ := Post.of_ok (writeBytes_spec hr.inv address data) hrun
      have hs := htouches.sameShape
      exact ⟨hs.mappings, hs.fileCount, hs.transformCount, hs.files, hs.transforms⟩
    · have hreturns := readFrom_returns data.length address data.length hr' hno' hreadable
        fun k hk => hr'.backedAt (hreadable k hk)
      unfold Post at hreturns
      rcases hread : readInto address data.length s' with ⟨_ | read, s2⟩
      · rw [readInto] at hread
        rw [hread] at hreturns
        exact hreturns.elim
      · rw [hback read (by rw [hread])]

/-- In a space that calls lead to, a write that meets no throwing page stores all its bytes or
changes nothing. -/
theorem writeBytes_allOrNothing (calls : List Call)
    (hcalls : Along (fun s call => call.StaysRegular s) {} calls) (address : BitVec 64)
    (data : List Byte) (hno : NoneFails (afterAll {} calls) address.toNat data.length) :
    Post (writeBytes address.toNat data) (afterAll {} calls)
      (fun _ s' => Written (afterAll {} calls) address.toNat data s')
      fun _ s' => NotWritten (afterAll {} calls) s' :=
  writeBytes_written (regular_afterAll hcalls) hno

/-- Two pages one after the other, with bytes of their own each. -/
def adjacentPages : List Call :=
  [.mapSegment 0x1000 0x1000 { read := true, write := true } { read := true, write := true }
      [1, 2] "data",
    .mapAnonymous 0x2000 0x1000 { read := true, write := true } { read := true, write := true }
      "heap" none]

theorem writeBytes_allOrNothing_adjacentPages :
    (writeBytes 0x1FFF [7, 8] (afterAll {} adjacentPages)).1 = .ok () ∧
      Post (writeBytes (0x1FFF : BitVec 64).toNat [7, 8]) (afterAll {} adjacentPages)
        (fun _ s' => Written (afterAll {} adjacentPages) (0x1FFF : BitVec 64).toNat [7, 8] s')
        fun _ s' => NotWritten (afterAll {} adjacentPages) s' := by
  refine ⟨by decide +kernel, writeBytes_allOrNothing adjacentPages ⟨trivial, trivial, trivial⟩ _ _ ?_⟩
  have hplain : ∀ m ∈ (afterAll {} adjacentPages).mappings, m.lazyFileTransform = none := by
    decide +kernel
  intro m hm o _ _ _
  simp [pageFails, hplain m hm]

end AddressSpace

end Rosa
