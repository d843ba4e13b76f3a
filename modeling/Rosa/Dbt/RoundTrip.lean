import Rosa.Dbt.PersistentCache

/-!
# The round trip of the cache file

A record is read back from its encoding if it is within the bounds of the reader, and the
file is rejected on the first one that is not. The tables of a reachable cache agree, so
the records that are written are exactly what `saved` gives for each address.
-/

namespace Rosa

open Rosa.Computation Reader

/-! ## What a loaded file contains -/

section

variable {anchor oldAnchor fingerprint : BitVec 64}

theorem relocateProgram_ok {program result : Program}
    (h : relocateProgram anchor oldAnchor program = .ok result) :
    result.pointerRelocations = program.pointerRelocations ∧
      result.bytes.length = program.bytes.length ∧
      ∀ o ∈ result.pointerRelocations, PointerCode result.bytes o.toNat := by
  unfold relocateProgram at h
  rcases relocateBytes_spec (anchor - oldAnchor) program.pointerRelocations program.bytes with
    ⟨hall, bytes, hbytes, hbits, -⟩ | ⟨-, message, herror⟩
  · rw [hbytes] at h
    obtain rfl : _ = result := by simpa using h
    exact ⟨rfl, hbits.length, fun o ho => hbits.pointerCode_iff.mpr (hall o ho)⟩
  · rw [herror] at h
    cases h

theorem readBytes_post {size : Nat} {bytes : List Byte} :
    Post (readBytes size) bytes (fun taken _ => taken.length = size) fun _ _ => True := by
  by_cases h : bytes.length < size
  · simp [Post, readBytes, takeBytes, h]
  · simp only [Post, readBytes, takeBytes, h, if_false, List.length_take]
    omega

theorem anything {α : Type} (x : Reader String α) (bytes : List Byte) :
    Post x bytes (fun _ _ => True) fun _ _ => True := by
  unfold Post
  split <;> trivial

/-- Whatever bytes it reads, a record that is accepted is one that could be saved. -/
theorem loadRecord_post (bytes : List Byte) :
    Post (loadRecord anchor oldAnchor) bytes (fun record _ => record.2.Ok record.1)
      fun _ _ => True := by
  unfold loadRecord
  refine Post.bind (Post.mono (anything _ _) ?_ fun _ _ _ => trivial)
  intro address s1 _
  refine Post.bind (Post.mono (anything _ _) ?_ fun _ _ _ => trivial)
  intro maximumInstructions s2 _
  refine Post.bind (Post.mono (anything _ _) ?_ fun _ _ _ => trivial)
  intro sourceSize s3 _
  refine Post.bind (Post.mono (anything _ _) ?_ fun _ _ _ => trivial)
  intro programSize s4 _
  refine Post.bind (Post.mono (anything _ _) ?_ fun _ _ _ => trivial)
  intro relocationCount s5 _
  refine Post.bind (Post.mono (anything _ _) ?_ fun _ _ _ => trivial)
  intro flags s6 _
  refine Post.bind (Post.mono (anything _ _) ?_ fun _ _ _ => trivial)
  intro callReturnAddress s7 _
  refine Post.bind (Post.mono (anything _ _) ?_ fun _ _ _ => trivial)
  intro last s8 _
  refine Post.bind (Post.raiseIf (fun _ => trivial) fun hvalid => ?_)
  simp only [invalidRecord, Bool.or_eq_false_iff, beq_eq_false_iff_ne, ne_eq,
    decide_eq_false_iff_not, not_lt, not_le, bne_eq_false_iff_eq] at hvalid
  obtain ⟨⟨⟨⟨⟨⟨⟨⟨⟨hmax, -⟩, hsource⟩, -⟩, hprogram⟩, -⟩, -⟩, -⟩, hge⟩, hlast⟩ := hvalid
  refine Post.bind (Post.mono readBytes_post ?_ fun _ _ _ => trivial)
  intro source s9 hsourceLength
  refine Post.bind (Post.mono readBytes_post ?_ fun _ _ _ => trivial)
  intro code s10 hcodeLength
  refine Post.bind (Post.mono (anything _ _) ?_ fun _ _ _ => trivial)
  intro relocations s11 _
  cases hrelocate : relocateProgram anchor oldAnchor ⟨code, relocations⟩ with
  | error message => exact trivial
  | ok program =>
    obtain ⟨-, hlength, hcode⟩ := relocateProgram_ok hrelocate
    have hne {n : BitVec 32} (hn : ¬n = 0) : 0 < n.toNat := by
      rcases Nat.eq_zero_or_pos n.toNat with h | h
      · exact absurd (BitVec.eq_of_toNat_eq h) hn
      · exact h
    refine Post.bind (Post.pure (Post.pure ⟨hmax, ?_, ?_, ?_, hcode⟩))
    · exact List.length_pos_iff.mp (hsourceLength ▸ hne hsource)
    · exact List.length_pos_iff.mp (hlength.trans hcodeLength ▸ hne hprogram)
    · refine ⟨(last - address).toNat, hsourceLength ▸ hlast, ?_⟩
      have hle : address ≤ last := BitVec.not_lt.mp hge
      rw [BitVec.toNat_sub_of_le hle]
      exact (Nat.add_sub_cancel' hle).symm

theorem loadRecords_post : ∀ (count : Nat) {table : Table PersistentBlock} (bytes : List Byte),
    (∀ a b, table.lookup a = some b → b.Ok a) →
    Post (loadRecords anchor oldAnchor count table) bytes
      (fun table _ => ∀ a b, table.lookup a = some b → b.Ok a) fun _ _ => True
  | 0, _, _, h => Post.pure h
  | count + 1, table, bytes, h => by
    rw [loadRecords]
    refine Post.bind (Post.mono (loadRecord_post bytes) ?_ fun _ _ _ => trivial)
    intro record s1 hrecord
    refine Post.bind (Post.raiseIf (fun _ => trivial) fun _ => loadRecords_post count s1 ?_)
    intro a b hb
    by_cases ha : a = record.1
    · subst ha
      obtain rfl : record.2 = b := by simpa using hb
      exact hrecord
    · rw [AList.lookup_insert_ne ha] at hb
      exact h a b hb

theorem loadPersistent_ok {file : Option (List Byte)} {table : Table PersistentBlock}
    (h : loadPersistent fingerprint anchor file = .ok table) :
    ∀ a b, table.lookup a = some b → b.Ok a := by
  have hempty (a : BitVec 64) (b : PersistentBlock)
      (hb : (∅ : Table PersistentBlock).lookup a = some b) : b.Ok a := by simp at hb
  unfold loadPersistent at h
  split at h
  · obtain rfl : ∅ = table := by simpa using h
    exact hempty
  · next bytes =>
    split at h
    · cases h
    · have hpost : Post (loadFile fingerprint anchor) bytes
          (fun table _ => ∀ a b, table.lookup a = some b → b.Ok a) fun _ _ => True := by
        unfold loadFile
        refine Post.bind (Post.mono (anything _ _) ?_ fun _ _ _ => trivial)
        intro magic s1 _
        split
        · exact Post.pure hempty
        · refine Post.bind (Post.mono (anything _ _) ?_ fun _ _ _ => trivial)
          intro version s2 _
          split
          · exact Post.pure hempty
          · refine Post.bind (Post.mono (anything _ _) ?_ fun _ _ _ => trivial)
            intro build s3 _
            split
            · exact Post.pure hempty
            · refine Post.bind (Post.mono (anything _ _) ?_ fun _ _ _ => trivial)
              intro old s4 _
              refine Post.bind (Post.mono (anything _ _) ?_ fun _ _ _ => trivial)
              intro count s5 _
              unfold loadTable
              refine Post.bind (Post.raiseIf (fun _ => trivial) fun _ => ?_)
              refine Post.bind (Post.mono (loadRecords_post _ _ hempty) ?_ fun _ _ _ => trivial)
              intro result s6 hresult
              exact Post.bind (Post.mono (anything _ _) (fun _ _ _ => Post.pure hresult)
                fun _ _ _ => trivial)
      unfold Post at hpost
      split at hpost
      · next hx =>
        rw [hx] at h
        obtain rfl := Except.ok.inj h
        exact hpost
      · next hx =>
        rw [hx] at h
        cases h

end

/-! ## Records -/

/-- The bounds of the reader. -/
structure PersistentBlock.WithinReader (block : PersistentBlock) : Prop where
  source : block.sourceBytes.length ≤ maximumPersistentSourceSize
  program : block.program.bytes.length ≤ maximumPersistentProgramSize
  relocations : block.program.pointerRelocations.length ≤ maximumPersistentRelocations

/-- The program after relocation. -/
def PersistentBlock.withProgram (block : PersistentBlock) (bytes : List Byte) : PersistentBlock :=
  { block with program := { block.program with bytes } }

theorem recordFlags_spec (block : PersistentBlock) :
    (recordFlags block &&& ~~~3#32) = 0 ∧
      ((recordFlags block &&& 1#32) != 0) = block.hasInternalSelfEdge ∧
      ((recordFlags block &&& 2#32) != 0) = block.callReturnAddress.isSome := by
  unfold recordFlags
  cases block.hasInternalSelfEdge <;> cases block.callReturnAddress.isSome <;> decide

section

variable {anchor oldAnchor : BitVec 64} {record : Record}

/-- The header check of the reader, on what the writer wrote. -/
theorem invalidRecord_eq_false_iff (hok : record.2.Ok record.1)
    (hfits : BlockCache.fitsWriter record = true) :
    invalidRecord record.1 record.2.maximumInstructions
        (BitVec.ofNat 32 record.2.sourceBytes.length)
        (BitVec.ofNat 32 record.2.program.bytes.length)
        (BitVec.ofNat 32 record.2.program.pointerRelocations.length) (recordFlags record.2)
        record.2.lastInstructionAddress = false ↔ record.2.WithinReader := by
  obtain ⟨k, hk, hlast⟩ := hok.last
  simp only [BlockCache.fitsWriter, Bool.and_eq_true, decide_eq_true_eq] at hfits
  have hsource : (BitVec.ofNat 32 record.2.sourceBytes.length).toNat =
      record.2.sourceBytes.length := by
    rw [BitVec.toNat_ofNat]
    omega
  have hprogram : (BitVec.ofNat 32 record.2.program.bytes.length).toNat =
      record.2.program.bytes.length := by
    rw [BitVec.toNat_ofNat]
    omega
  have hrelocations : (BitVec.ofNat 32 record.2.program.pointerRelocations.length).toNat =
      record.2.program.pointerRelocations.length := by
    rw [BitVec.toNat_ofNat]
    omega
  have hpos := List.length_pos_iff.mpr hok.source
  have hpos' := List.length_pos_iff.mpr hok.program
  have hne {n : Nat} (hn : 0 < n) (h : (BitVec.ofNat 32 n).toNat = n) :
      BitVec.ofNat 32 n ≠ 0 := by
    intro h0
    rw [h0] at h
    simp at h
    omega
  have hge : record.1 ≤ record.2.lastInstructionAddress := by
    show record.1.toNat ≤ record.2.lastInstructionAddress.toNat
    omega
  have hdiff : (record.2.lastInstructionAddress - record.1).toNat = k := by
    rw [BitVec.toNat_sub_of_le hge]
    omega
  have hmax := record.2.maximumInstructions.isLt
  simp only [invalidRecord, Bool.or_eq_false_iff, beq_eq_false_iff_ne, ne_eq,
    decide_eq_false_iff_not, not_lt, not_le, bne_eq_false_iff_eq, hsource, hprogram, hrelocations,
    (recordFlags_spec record.2).1, hdiff, and_true]
  constructor
  · rintro ⟨⟨⟨⟨⟨⟨-, h1⟩, -⟩, h2⟩, h3⟩, -⟩, -⟩
    exact ⟨h1, h2, h3⟩
  · rintro ⟨h1, h2, h3⟩
    exact ⟨⟨⟨⟨⟨⟨⟨⟨hok.maximumInstructions, by omega⟩, hne hpos hsource⟩, h1⟩,
      hne hpos' hprogram⟩, h2⟩, h3⟩, BitVec.not_lt.mpr hge⟩, hk⟩

theorem reads_readU32 (value : BitVec 32) : Reads readU32 (littleEndian 4 value) value :=
  Reads.takeWord (by decide) value

theorem reads_readU64 (value : BitVec 64) : Reads readU64 (littleEndian 8 value) value :=
  Reads.takeWord (by decide) value

theorem reads_readBytes (bytes : List Byte) : Reads (readBytes bytes.length) bytes bytes :=
  Reads.takeBytes rfl

/-- A record within the bounds of the reader is read back, with its program relocated. -/
theorem reads_loadRecord (hok : record.2.Ok record.1)
    (hfits : BlockCache.fitsWriter record = true) (hwithin : record.2.WithinReader)
    {bytes : List Byte} (hbytes : relocateBytes (anchor - oldAnchor)
      record.2.program.pointerRelocations record.2.program.bytes = .ok bytes) :
    Reads (loadRecord anchor oldAnchor) (encodeRecord record)
      ⟨record.1, record.2.withProgram bytes⟩ := by
  have hvalid := (invalidRecord_eq_false_iff hok hfits).mpr hwithin
  simp only [BlockCache.fitsWriter, Bool.and_eq_true, decide_eq_true_eq] at hfits
  have hlength {n : Nat} (hn : n ≤ 2 ^ 32 - 1) : n = (BitVec.ofNat 32 n).toNat := by
    rw [BitVec.toNat_ofNat]
    omega
  simp only [encodeRecord, List.append_assoc]
  unfold loadRecord
  refine (reads_readU64 _).bind ((reads_readU64 _).bind ((reads_readU32 _).bind
    ((reads_readU32 _).bind ((reads_readU32 _).bind ((reads_readU32 _).bind
      ((reads_readU64 _).bind ((reads_readU64 _).bind (Reads.raiseIf_bind hvalid
        ((Reads.takeBytes (hlength hfits.1.1)).bind ((Reads.takeBytes (hlength hfits.1.2)).bind
          ?_))))))))))
  have hmany : Reads (takeMany readU32
      (BitVec.ofNat 32 record.2.program.pointerRelocations.length).toNat)
      (record.2.program.pointerRelocations.flatMap (littleEndian 4))
      record.2.program.pointerRelocations := by
    rw [← hlength hfits.2]
    exact Reads.takeMany fun o _ => reads_readU32 o
  rw [← List.append_nil (List.flatMap _ _)]
  refine hmany.bind fun rest => ?_
  have hprogram : relocateProgram anchor oldAnchor
      ⟨record.2.program.bytes, record.2.program.pointerRelocations⟩ =
      .ok { record.2.program with bytes } := by
    unfold relocateProgram
    rw [hbytes]
  rw [hprogram]
  obtain ⟨-, hedge, hreturn⟩ := recordFlags_spec record.2
  simp only [hedge, hreturn]
  have hcall : (if record.2.callReturnAddress.isSome = true then
      some (record.2.callReturnAddress.getD 0) else none) = record.2.callReturnAddress := by
    cases record.2.callReturnAddress <;> rfl
  rw [hcall]
  rfl

/-- A record out of bounds makes the reader throw. -/
theorem rejects_loadRecord (hok : record.2.Ok record.1)
    (hfits : BlockCache.fitsWriter record = true) (hwithin : ¬record.2.WithinReader) :
    Rejects (loadRecord anchor oldAnchor) (encodeRecord record) := by
  have hinvalid := mt (invalidRecord_eq_false_iff hok hfits).mp hwithin
  rw [Bool.not_eq_false] at hinvalid
  simp only [encodeRecord, List.append_assoc]
  unfold loadRecord
  exact (reads_readU64 _).bind_rejects ((reads_readU64 _).bind_rejects
    ((reads_readU32 _).bind_rejects ((reads_readU32 _).bind_rejects ((reads_readU32 _).bind_rejects
      ((reads_readU32 _).bind_rejects ((reads_readU64 _).bind_rejects
        ((reads_readU64 _).bind_rejects (Rejects.raiseIf_bind hinvalid))))))))

end

/-! ## Lists of records -/

section

variable {anchor oldAnchor fingerprint : BitVec 64}

/-- Records that the writer can write. -/
structure Writable (records : List Record) : Prop where
  ok : ∀ record ∈ records, record.2.Ok record.1
  fits : ∀ record ∈ records, BlockCache.fitsWriter record = true
  nodup : (records.map Sigma.fst).Nodup

theorem Writable.cons {record : Record} {records : List Record}
    (h : Writable (record :: records)) : Writable records ∧ record.1 ∉ records.map Sigma.fst where
  left := ⟨fun r hr => h.ok r (List.mem_cons_of_mem _ hr),
    fun r hr => h.fits r (List.mem_cons_of_mem _ hr), (List.nodup_cons.mp h.nodup).2⟩
  right := (List.nodup_cons.mp h.nodup).1

theorem exists_relocateBytes {record : Record} (hok : record.2.Ok record.1) (slide : BitVec 64) :
    ∃ bytes, relocateBytes slide record.2.program.pointerRelocations
      record.2.program.bytes = .ok bytes := by
  rcases relocateBytes_spec slide record.2.program.pointerRelocations record.2.program.bytes with
    ⟨-, bytes, hbytes, -⟩ | ⟨⟨o, ho, hbad⟩, -⟩
  · exact ⟨bytes, hbytes⟩
  · exact absurd (hok.relocations o ho) hbad

/-- The table has the record, with its program relocated. -/
def Loads (slide : BitVec 64) (table : Table PersistentBlock) (record : Record) : Prop :=
  ∃ bytes, relocateBytes slide record.2.program.pointerRelocations
      record.2.program.bytes = .ok bytes ∧
    table.lookup record.1 = some (record.2.withProgram bytes)

theorem reads_loadRecords : ∀ {records : List Record} (table : Table PersistentBlock),
    Writable records → (∀ record ∈ records, record.2.WithinReader) →
    (∀ record ∈ records, table.lookup record.1 = none) →
    ∃ result, Reads (loadRecords anchor oldAnchor records.length table)
        (records.flatMap encodeRecord) result ∧
      (∀ a, a ∉ records.map Sigma.fst → result.lookup a = table.lookup a) ∧
      ∀ record ∈ records, Loads (anchor - oldAnchor) result record
  | [], table, _, _, _ => ⟨table, Reads.pure table, fun _ _ => rfl, by simp⟩
  | record :: records, table, h, hwithin, hfree => by
    obtain ⟨hrest, hnew⟩ := h.cons
    obtain ⟨bytes, hbytes⟩ := exists_relocateBytes (h.ok record (by simp)) (anchor - oldAnchor)
    have hread := reads_loadRecord (h.ok record (by simp)) (h.fits record (by simp))
      (hwithin record (by simp)) hbytes
    have hne {r : Record} (hr : r ∈ records) : r.1 ≠ record.1 := by
      intro he
      exact hnew (he ▸ List.mem_map_of_mem hr)
    obtain ⟨result, hresult, hkeep, hloads⟩ := reads_loadRecords
      (table.insert record.1 (record.2.withProgram bytes)) hrest
      (fun r hr => hwithin r (List.mem_cons_of_mem _ hr)) fun r hr => by
        rw [AList.lookup_insert_ne (hne hr)]
        exact hfree r (List.mem_cons_of_mem _ hr)
    refine ⟨result, ?_, fun a ha => ?_, fun r hr => ?_⟩
    · refine hread.bind (Reads.raiseIf_bind ?_ hresult)
      simp [hfree record (by simp)]
    · rw [List.map_cons, List.mem_cons, not_or] at ha
      rw [hkeep a ha.2, AList.lookup_insert_ne ha.1]
    · rcases List.mem_cons.mp hr with rfl | hr
      · exact ⟨bytes, hbytes, by rw [hkeep _ hnew, AList.lookup_insert]⟩
      · exact hloads r hr

theorem rejects_loadRecords : ∀ {records : List Record} (table : Table PersistentBlock),
    Writable records → (∀ record ∈ records, table.lookup record.1 = none) →
    (∃ record ∈ records, ¬record.2.WithinReader) →
    Rejects (loadRecords anchor oldAnchor records.length table) (records.flatMap encodeRecord)
  | [], _, _, _, h => by simp at h
  | record :: records, table, h, hfree, hbad => by
    obtain ⟨hrest, hnew⟩ := h.cons
    rw [List.flatMap_cons]
    by_cases hwithin : record.2.WithinReader
    · obtain ⟨bytes, hbytes⟩ := exists_relocateBytes (h.ok record (by simp)) (anchor - oldAnchor)
      have hread := reads_loadRecord (h.ok record (by simp)) (h.fits record (by simp)) hwithin hbytes
      refine hread.bind_rejects fun rest => ?_
      have hnone : (table.lookup record.1).isSome = false := by simp [hfree record (by simp)]
      have htail := rejects_loadRecords
        (table.insert record.1 (record.2.withProgram bytes)) hrest (fun r hr => by
          have hne : r.1 ≠ record.1 := fun he => hnew (he ▸ List.mem_map_of_mem hr)
          rw [AList.lookup_insert_ne hne]
          exact hfree r (List.mem_cons_of_mem _ hr)) (by
          obtain ⟨r, hr, hr'⟩ := hbad
          rcases List.mem_cons.mp hr with rfl | hr
          · exact absurd hwithin hr'
          · exact ⟨r, hr, hr'⟩)
      simp only [hnone, raiseIf, Bool.false_eq_true, if_false]
      exact htail rest
    · exact (Rejects.bind (rejects_loadRecord (h.ok record (by simp)) (h.fits record (by simp))
        hwithin)).append

theorem length_le_flatMap_encodeRecord (records : List Record) :
    records.length ≤ (records.flatMap encodeRecord).length := by
  induction records with
  | nil => simp
  | cons record records ih =>
    rw [List.flatMap_cons, List.length_append, List.length_cons]
    have : 8 ≤ (encodeRecord record).length := by
      simp only [encodeRecord, List.append_assoc, List.length_append, length_littleEndian]
      omega
    omega

/-- The reader, on a file of the same build. -/
theorem loadFile_encodeFile (anchor : BitVec 64) {records : List Record} (h : Writable records)
    (hsize : (encodeFile fingerprint oldAnchor records).length ≤ maximumPersistentFileSize) :
    (records.length ≤ maximumPersistentRecords ∧ (∀ record ∈ records, record.2.WithinReader) ∧
      ∃ table, (loadFile fingerprint anchor (encodeFile fingerprint oldAnchor records)).1 =
          .ok table ∧ (∀ a, a ∉ records.map Sigma.fst → table.lookup a = none) ∧
        ∀ record ∈ records, Loads (anchor - oldAnchor) table record) ∨
    (¬(records.length ≤ maximumPersistentRecords ∧ ∀ record ∈ records, record.2.WithinReader) ∧
      ∃ message, (loadFile fingerprint anchor (encodeFile fingerprint oldAnchor records)).1 =
        .error message) := by
  have hcount : (BitVec.ofNat 32 records.length).toNat = records.length := by
    have := length_le_flatMap_encodeRecord records
    simp only [encodeFile, List.length_append, maximumPersistentFileSize] at hsize
    rw [BitVec.toNat_ofNat]
    omega
  have hheader : loadFile fingerprint anchor (encodeFile fingerprint oldAnchor records) =
      loadTable anchor oldAnchor records.length (records.flatMap encodeRecord) := by
    simp only [encodeFile, List.append_assoc]
    rw [loadFile, bind_ok (reads_readBytes persistentMagic _), bne_self_eq_false,
      if_neg Bool.false_ne_true, bind_ok (reads_readU32 _ _), bne_self_eq_false,
      if_neg Bool.false_ne_true, bind_ok (reads_readU64 _ _), bne_self_eq_false,
      if_neg Bool.false_ne_true, bind_ok (reads_readU64 _ _), bind_ok (reads_readU32 _ _), hcount]
  rw [hheader]
  have hfree (record : Record) (_ : record ∈ records) :
      (∅ : Table PersistentBlock).lookup record.1 = none := AList.lookup_empty _
  rcases Nat.lt_or_ge maximumPersistentRecords records.length with hmany | hmany
  · refine .inr ⟨fun hle => absurd hle.1 (by omega), ?_⟩
    have hreject : Rejects (loadTable anchor oldAnchor records.length)
        (records.flatMap encodeRecord) := Rejects.raiseIf_bind (decide_eq_true hmany)
    exact hreject.error
  · have hfew : decide (maximumPersistentRecords < records.length) = false :=
      decide_eq_false (by omega)
    by_cases hwithin : ∀ record ∈ records, record.2.WithinReader
    · obtain ⟨table, htable, hkeep, hloads⟩ := reads_loadRecords ∅ h hwithin hfree
      refine .inl ⟨hmany, hwithin, table, ?_, fun a ha => ?_, hloads⟩
      · have hread := htable []
        rw [List.append_nil] at hread
        rw [loadTable, hfew, bind_ok (show raiseIf false _ _ = _ from rfl), bind_ok hread]
        rfl
      · rw [hkeep a ha, AList.lookup_empty]
    · refine .inr ⟨fun hle => hwithin hle.2, ?_⟩
      push Not at hwithin
      have hreject : Rejects (loadTable anchor oldAnchor records.length)
          (records.flatMap encodeRecord) := by
        rw [loadTable, hfew]
        intro rest
        rw [bind_ok (show raiseIf false _ _ = _ from rfl)]
        exact (rejects_loadRecords ∅ h hfree hwithin).bind rest
      exact hreject.error

end

/-! ## The records of a cache -/

namespace BlockCache

variable {c : BlockCache}

theorem liveRecords_spec : ∀ {entries : List (Sigma fun _ : BitVec 64 => BlockId)},
    (∀ e ∈ entries, ∃ block, c.recordAt e.1 e.2 = some block) →
    ∃ records, c.liveRecords entries = some records ∧
      records.map Sigma.fst = entries.map Sigma.fst ∧
      ∀ a block, ⟨a, block⟩ ∈ records ↔ ∃ id, ⟨a, id⟩ ∈ entries ∧ c.recordAt a id = some block
  | [], _ => ⟨[], rfl, rfl, by simp⟩
  | ⟨address, id⟩ :: entries, h => by
    obtain ⟨records, hrecords, hkeys, hmem⟩ :=
      liveRecords_spec fun e he => h e (List.mem_cons_of_mem _ he)
    obtain ⟨block, hblock⟩ := h ⟨address, id⟩ (by simp)
    have hblock' : c.recordAt address id = some block := hblock
    refine ⟨⟨address, block⟩ :: records, ?_, by simp [hkeys], fun a b => ?_⟩
    · simp [liveRecords, hblock', hrecords]
    · simp only [List.mem_cons, Sigma.mk.injEq, heq_eq_eq, hmem]
      constructor
      · rintro (⟨rfl, rfl⟩ | ⟨i, hi, hb⟩)
        · exact ⟨id, .inl ⟨rfl, rfl⟩, hblock'⟩
        · exact ⟨i, .inr hi, hb⟩
      · rintro ⟨i, ⟨rfl, rfl⟩ | hi, hb⟩
        · rw [hblock'] at hb
          exact .inl ⟨rfl, Option.some.inj hb.symm⟩
        · exact .inr ⟨i, hi, hb⟩

theorem mem_entries {α : Type} {table : Table α} {a : BitVec 64} {b : α} :
    (⟨a, b⟩ : Sigma fun _ : BitVec 64 => α) ∈ table.entries ↔ table.lookup a = some b :=
  AList.mem_lookup_iff.symm

theorem mem_orderedBlocks {a : BitVec 64} {id : BlockId} :
    (⟨a, id⟩ : Sigma fun _ : BitVec 64 => BlockId) ∈ c.orderedBlocks ↔
      c.blocks.lookup a = some id := by
  rw [orderedBlocks, (List.perm_insertionSort _ _).mem_iff, mem_entries]

theorem mem_unusedRecords {order : HashOrder} {a : BitVec 64} {block : PersistentBlock} :
    (⟨a, block⟩ : Record) ∈ c.unusedRecords order ↔
      c.persistentBlocks.lookup a = some block ∧ c.blocks.lookup a = none := by
  rw [unusedRecords, List.mem_filter, (order.perm _).mem_iff, mem_entries, Option.isNone_iff_eq_none]

/-- The records of a consistent cache : what `saved` gives, once for each address. -/
theorem Consistent.records (h : Consistent c) (order : HashOrder) :
    ∃ live, c.liveRecords c.orderedBlocks = some live ∧
      (live ++ c.unusedRecords order).length =
        c.blocks.entries.length + (c.unusedRecords order).length ∧
      ((live ++ c.unusedRecords order).map Sigma.fst).Nodup ∧
      (∀ a block, ⟨a, block⟩ ∈ live ++ c.unusedRecords order ↔ c.saved a = some block) ∧
      ∀ record ∈ live ++ c.unusedRecords order, record.2.Ok record.1 := by
  have hrecord {a : BitVec 64} {id : BlockId} (ha : c.blocks.lookup a = some id) :
      ∃ block, c.recordAt a id = some block ∧ block.Ok a := by
    obtain ⟨block, maximum, -, hb, hm, -, hok⟩ := h.owned a id ha
    exact ⟨_, by simp [recordAt, hb, hm], hok⟩
  obtain ⟨live, hlive, hkeys, hmem⟩ := liveRecords_spec
    fun e (he : e ∈ c.orderedBlocks) => (hrecord (mem_orderedBlocks.mp he)).imp fun _ hb => hb.1
  have hsaved (a : BitVec 64) (block : PersistentBlock) :
      ⟨a, block⟩ ∈ live ++ c.unusedRecords order ↔ c.saved a = some block := by
    rw [List.mem_append, hmem, mem_unusedRecords]
    unfold saved
    cases ha : c.blocks.lookup a with
    | none => simp [mem_orderedBlocks, ha]
    | some id => simp [mem_orderedBlocks, ha]
  refine ⟨live, hlive, ?_, ?_, hsaved, ?_⟩
  · have hlength := congrArg List.length hkeys
    rw [List.length_map, List.length_map, orderedBlocks, List.length_insertionSort] at hlength
    rw [List.length_append, hlength]
  · rw [List.map_append, hkeys]
    refine List.nodup_append.mpr ⟨?_, ?_, ?_⟩
    · exact (((List.perm_insertionSort _ _).map Sigma.fst).nodup_iff).mpr c.blocks.keys_nodup
    · refine (List.filter_sublist.map Sigma.fst).nodup ?_
      exact (((order.perm _).map Sigma.fst).nodup_iff).mpr c.persistentBlocks.keys_nodup
    · rintro a ha b hb rfl
      obtain ⟨⟨_, id⟩, hid, rfl⟩ := List.mem_map.mp ha
      obtain ⟨⟨b, block⟩, hblock, hb'⟩ := List.mem_map.mp hb
      dsimp only at hb'
      subst hb'
      rw [mem_orderedBlocks] at hid
      rw [mem_unusedRecords] at hblock
      simp [hid] at hblock
  · rintro ⟨a, block⟩ hr
    rw [hsaved] at hr
    unfold saved at hr
    cases ha : c.blocks.lookup a with
    | none =>
      rw [ha] at hr
      exact h.persistent a block hr
    | some id =>
      obtain ⟨b, hb, hok⟩ := hrecord ha
      simp only [ha, hb, Option.some.injEq] at hr
      exact hr ▸ hok

theorem create_consistent (fingerprint anchor : BitVec 64) (persistentPath : Bool)
    (file : Option (List Byte)) : Consistent (create fingerprint anchor persistentPath file) := by
  refine Consistent.initial fun a block hb => ?_
  split at hb
  · split at hb
    · next table htable => exact loadPersistent_ok htable a block hb
    · simp at hb
  · simp at hb

theorem Consistent.afterAll {I : Type} (tr : Translator I) :
    ∀ {requests : List Request} {c : BlockCache}, Consistent c → Consistent (c.afterAll tr requests)
  | [], _, h => h
  | r :: requests, c, h => by
    have hnext : Consistent (getOrTranslate tr r.address r.code r.maximumInstructions
        r.executableVersion c).2 := by
      refine Post.final (Post.mono (getOrTranslate_spec h tr r.address r.code
        r.maximumInstructions r.executableVersion) (fun _ _ hgot => hgot.consistent) ?_)
      rintro _ _ ⟨rfl, -⟩
      exact h
    show Consistent (BlockCache.afterAll tr _ requests)
    exact Consistent.afterAll tr hnext

/-! ## The round trip -/

/-- The program of the new process : the pointers are shifted and nothing else changes. -/
structure Relocated (slide : BitVec 64) (program program' : Program) : Prop where
  relocations : program'.pointerRelocations = program.pointerRelocations
  pointers : ∀ o ∈ program.pointerRelocations,
    pointerAt program'.bytes o.toNat = pointerAt program.bytes o.toNat + slide
  code : SameCodeBits program.bytes program'.bytes
  outside : ∀ j, (∀ o ∈ program.pointerRelocations, j < o.toNat ∨ o.toNat + 16 ≤ j) →
    program'.bytes[j]? = program.bytes[j]?

/-- The block as it was saved, with its program relocated. -/
structure Restored (slide : BitVec 64) (block block' : PersistentBlock) : Prop where
  sourceBytes : block'.sourceBytes = block.sourceBytes
  maximumInstructions : block'.maximumInstructions = block.maximumInstructions
  hasInternalSelfEdge : block'.hasInternalSelfEdge = block.hasInternalSelfEdge
  callReturnAddress : block'.callReturnAddress = block.callReturnAddress
  lastInstructionAddress : block'.lastInstructionAddress = block.lastInstructionAddress
  program : Relocated slide block.program block'.program

/-- The pointers of a block are shifted by the slide if each is shifted once, or if the
other shifts cancel. -/
def ShiftedOnce (slide : BitVec 64) (block : PersistentBlock) : Prop :=
  ∀ o ∈ block.program.pointerRelocations,
    BitVec.ofNat 64 (block.program.pointerRelocations.count o) * slide = slide

/-- A block that was translated lists each pointer once, so only a file from elsewhere can
have one that is shifted twice. -/
theorem shiftedOnce_of_translate {I : Type} (tr : Translator I) {code : List Byte}
    {start maximumInstructions : BitVec 64} {block : TranslatedBlock}
    (h : tr.translate code start maximumInstructions = .ok block) (slide : BitVec 64) :
    ShiftedOnce slide (block.record maximumInstructions) := by
  intro o ho
  have hnodup : (block.record maximumInstructions).program.pointerRelocations.Nodup :=
    (tr.translate_spec h).2.2
  rw [List.count_eq_one_of_mem hnodup ho, BitVec.one_mul]

theorem restored_iff {slide : BitVec 64} {address : BitVec 64} {block : PersistentBlock}
    {bytes : List Byte} (hok : block.Ok address)
    (h : relocateBytes slide block.program.pointerRelocations block.program.bytes = .ok bytes) :
    Restored slide block (block.withProgram bytes) ↔ ShiftedOnce slide block := by
  rcases relocateBytes_spec slide block.program.pointerRelocations block.program.bytes with
    ⟨-, result, hresult, hbits, hout, hpointers⟩ | ⟨-, message, herror⟩
  · obtain rfl : bytes = result := Except.ok.inj (h.symm.trans hresult)
    constructor
    · intro hr o ho
      have h1 := hr.program.pointers o ho
      have h2 := hpointers o (hok.relocations o ho)
      exact (BitVec.add_right_inj _).mp (h2.symm.trans h1)
    · intro honce
      refine ⟨rfl, rfl, rfl, rfl, rfl, rfl, fun o ho => ?_, hbits, hout⟩
      rw [← honce o ho]
      exact hpointers o (hok.relocations o ho)
  · rw [herror] at h
    cases h

/-- The file is accepted by the next process, and what it restores is what was saved. -/
def RoundTrips (fingerprint anchor anchor' : BitVec 64) (c : BlockCache) (file : List Byte) :
    Prop :=
  ∃ table, loadPersistent fingerprint anchor' (some file) = .ok table ∧
    ∀ address, Option.Rel (Restored (anchor' - anchor)) (c.saved address) (table.lookup address)

/-- Every record is within the bounds of the reader, and its pointers are shifted once. -/
structure WithinBounds (slide : BitVec 64) (order : HashOrder) (c : BlockCache) : Prop where
  count : c.blocks.entries.length + (c.unusedRecords order).length ≤ maximumPersistentRecords
  records : ∀ address block, c.saved address = some block →
    block.WithinReader ∧ ShiftedOnce slide block

/-- The file that was written. -/
theorem Consistent.savePersistent_eq (h : Consistent c) {fingerprint anchor : BitVec 64}
    {order : HashOrder} {file : List Byte}
    (hsave : savePersistent fingerprint anchor order c = some file) :
    ∃ records, file = encodeFile fingerprint anchor records ∧ Writable records ∧
      records.length = c.blocks.entries.length + (c.unusedRecords order).length ∧
      ∀ a block, ⟨a, block⟩ ∈ records ↔ c.saved a = some block := by
  obtain ⟨live, hlive, hlength, hnodup, hsaved, hok⟩ := h.records order
  unfold savePersistent at hsave
  split at hsave
  · cases hsave
  · split at hsave
    · cases hsave
    · rw [hlive] at hsave
      dsimp only at hsave
      split at hsave
      · next hfits =>
        exact ⟨_, (Option.some.inj hsave).symm, ⟨hok, List.all_eq_true.mp hfits, hnodup⟩, hlength,
          hsaved⟩
      · cases hsave

theorem Consistent.roundTrips_iff (h : Consistent c) {fingerprint anchor anchor' : BitVec 64}
    {order : HashOrder} {file : List Byte}
    (hsave : savePersistent fingerprint anchor order c = some file)
    (hsize : file.length ≤ maximumPersistentFileSize) :
    RoundTrips fingerprint anchor anchor' c file ↔ WithinBounds (anchor' - anchor) order c := by
  obtain ⟨records, rfl, hwritable, hlength, hsaved⟩ := h.savePersistent_eq hsave
  have hload : loadPersistent fingerprint anchor' (some (encodeFile fingerprint anchor records)) =
      (loadFile fingerprint anchor' (encodeFile fingerprint anchor records)).1 := by
    simp only [loadPersistent]
    rw [if_neg (by omega)]
  have hmem {a : BitVec 64} {block : PersistentBlock} (hb : c.saved a = some block) :
      (⟨a, block⟩ : Record) ∈ records := (hsaved a block).mpr hb
  unfold RoundTrips
  rw [hload]
  rcases loadFile_encodeFile anchor' hwritable hsize with
    ⟨hcount, hwithin, table, htable, hnone, hloads⟩ | ⟨hbad, message, herror⟩
  · constructor
    · rintro ⟨table', htable', hrel⟩
      obtain rfl : table = table' := Except.ok.inj (htable.symm.trans htable')
      refine ⟨hlength ▸ hcount, fun a block hb => ⟨hwithin _ (hmem hb), ?_⟩⟩
      obtain ⟨bytes, hbytes, hlookup⟩ := hloads _ (hmem hb)
      have hr := hrel a
      rw [hb, show table.lookup a = _ from hlookup] at hr
      cases hr with
      | some hr => exact (restored_iff (hwritable.ok _ (hmem hb)) hbytes).mp hr
    · intro hbounds
      refine ⟨table, htable, fun a => ?_⟩
      cases hb : c.saved a with
      | none =>
        rw [hnone a fun ha => ?_]
        · exact .none
        · obtain ⟨⟨a', block⟩, hr, rfl⟩ := List.mem_map.mp ha
          simp [(hsaved a' block).mp hr] at hb
      | some block =>
        obtain ⟨bytes, hbytes, hlookup⟩ := hloads _ (hmem hb)
        rw [show table.lookup a = _ from hlookup]
        exact .some ((restored_iff (hwritable.ok _ (hmem hb)) hbytes).mpr
          (hbounds.records a block hb).2)
  · constructor
    · rintro ⟨table', htable', -⟩
      rw [herror] at htable'
      cases htable'
    · intro hbounds
      refine absurd ⟨hlength ▸ hbounds.count, ?_⟩ hbad
      rintro ⟨a, block⟩ hr
      exact (hbounds.records a block ((hsaved a block).mp hr)).1

/-- For every cache that a sequence of translations can lead to, starting from any file :
the file it writes is restored by the next process exactly if every record is within the
bounds of the reader and each of its pointers is shifted once. -/
theorem roundTrips_savePersistent_iff {I : Type} (tr : Translator I)
    (fingerprint anchor anchor' : BitVec 64) (persistentPath : Bool) (earlier : Option (List Byte))
    (requests : List Request) (order : HashOrder) (file : List Byte)
    (hsave : savePersistent fingerprint anchor order
      (afterAll tr (create fingerprint anchor persistentPath earlier) requests) = some file)
    (hsize : file.length ≤ maximumPersistentFileSize) :
    RoundTrips fingerprint anchor anchor'
        (afterAll tr (create fingerprint anchor persistentPath earlier) requests) file ↔
      WithinBounds (anchor' - anchor) order
        (afterAll tr (create fingerprint anchor persistentPath earlier) requests) :=
  ((create_consistent fingerprint anchor persistentPath earlier).afterAll tr).roundTrips_iff hsave
    hsize

/-! ## A sled of no-operations -/

/-- Decoder and code generator on blocks of `nop` and `ret`. -/
def nopTranslator : Translator Unit where
  decodeInstruction code address :=
    match code with
    | [] => .error "cannot decode an empty instruction"
    | byte :: _ =>
      if byte = 0xC3 then .ok ⟨address, [byte], true, ()⟩
      else if byte = 0x90 then .ok ⟨address, [byte], false, ()⟩
      else .error "opcode is not in the current Rosa subset"
  compile decoded :=
    match decoded.getLast? with
    | none => .error "translated block has no decoded instructions"
    | some last =>
      -- the address of the return into x16 and into RIP, `BlockExit::Return` into x0
      .ok [.word (0xD2800010#32 ||| ((last.address.setWidth 32 &&& 0xFFFF#32) <<< 5)),
        .word 0xF9004010, .word 0xD2800040, .word 0xD65F03C0]
  hasInternalSelfEdge _ := false
  callReturnAddress _ := none
  decode_address := by
    intro code address i h
    split at h
    · cases h
    · split at h
      · cases h; rfl
      · split at h <;> cases h; rfl
  decode_bytes := by
    intro code address i h
    split at h
    · cases h
    · split at h
      · cases h; simp
      · split at h <;> cases h; simp
  compile_ne_nil := by
    intro decoded emissions h
    split at h <;> cases h; simp

/-- A sled of `nop` and a `ret`. -/
def nopSled (n : Nat) : List Byte := List.replicate n 0x90 ++ [0xC3]

/-- The block of a sled at `0x1000`. -/
def nopBlock (n : Nat) (maximumInstructions : BitVec 64) : TranslatedBlock where
  sourceBytes := nopSled n
  lastInstructionAddress := 0x1000 + BitVec.ofNat 64 n
  maximumInstructions
  program :=
    { bytes := [0xD2800010#32 |||
          (((0x1000 + BitVec.ofNat 64 n : BitVec 64).setWidth 32 &&& 0xFFFF#32) <<< 5),
        0xF9004010#32, 0xD2800040#32, 0xD65F03C0#32].flatMap (littleEndian 4)
      pointerRelocations := [] }
  callReturnAddress := none
  hasInternalSelfEdge := false

theorem decodeFrom_nopSled {n : Nat} (hn : n < 2 ^ 16) :
    ∀ (left cursor fuel : Nat) (result : List (DecodedInstruction Unit)), cursor + left = n →
      left < fuel → result.length = cursor →
      result.flatMap DecodedInstruction.bytes = List.replicate cursor 0x90 →
      ∃ decoded, nopTranslator.decodeFrom (nopSled n) 0x1000 (-1) fuel cursor result =
          .ok decoded ∧ decoded.flatMap DecodedInstruction.bytes = nopSled n ∧
        decoded.getLast? = some ⟨0x1000 + BitVec.ofNat 64 n, [0xC3], true, ()⟩
  | left, cursor, 0, _, _, h, _, _ => by omega
  | left, cursor, fuel + 1, result, hcursor, hfuel, hlength, hbytes => by
    have hdrop : (nopSled n).drop cursor = List.replicate left 0x90 ++ [0xC3] := by
      rw [nopSled, List.drop_append_of_le_length (by simp; omega), List.drop_replicate]
      congr 2
      omega
    have hlt : cursor < (nopSled n).length := by simp [nopSled]; omega
    have hrip : ¬2 ^ 64 - 1 - (0x1000 : BitVec 64).toNat < cursor := by
      have : (0x1000 : BitVec 64).toNat = 4096 := rfl
      omega
    rw [Translator.decodeFrom, if_pos hlt, if_neg hrip, hdrop]
    cases left with
    | zero =>
      have hcn : cursor = n := by omega
      refine ⟨_, rfl, ?_, ?_⟩
      · rw [List.flatMap_append, hbytes, hcn]
        rfl
      · rw [List.getLast?_append, hcn]
        rfl
    | succ left =>
      have hmax : (result.length + 1 == (-1 : BitVec 64).toNat) = false := by
        have : (-1 : BitVec 64).toNat = 2 ^ 64 - 1 := rfl
        rw [beq_eq_false_iff_ne]
        omega
      have hnop : nopTranslator.decodeInstruction (List.replicate (left + 1) 0x90 ++ [0xC3])
          (0x1000 + BitVec.ofNat 64 cursor) =
          .ok ⟨0x1000 + BitVec.ofNat 64 cursor, [0x90], false, ()⟩ := rfl
      rw [hnop]
      dsimp only
      rw [hmax, Bool.or_false, if_neg (by simp)]
      refine decodeFrom_nopSled hn left (cursor + 1) fuel _ (by omega) (by omega) (by simp [hlength]) ?_
      rw [List.flatMap_append, hbytes, List.replicate_succ']
      rfl

theorem translate_nopSled {n : Nat} (hn : n < 2 ^ 16) :
    nopTranslator.translate (nopSled n) 0x1000 (-1) = .ok (nopBlock n (-1)) := by
  obtain ⟨decoded, hdecoded, hbytes, hlast⟩ := decodeFrom_nopSled hn n 0 ((nopSled n).length + 1) []
    (by omega) (by simp [nopSled]) rfl rfl
  have hblock : nopTranslator.decodeBlock (nopSled n) 0x1000 (-1) = .ok decoded := by
    rw [Translator.decodeBlock, if_neg (by decide), hdecoded]
  unfold Translator.translate
  rw [hblock]
  simp only [bind, Except.bind, nopTranslator, hlast, assemble, hbytes]
  rfl

/-- The cache after the translation of a sled, in a new process. -/
def nopCache (n : Nat) : BlockCache :=
  afterAll nopTranslator (create 7 0x100000000 true none) [⟨0x1000, nopSled n, -1, 1⟩]

theorem nopCache_eq {n : Nat} (hn : n < 2 ^ 16) :
    nopCache n = { persistentPath := true, persistentDirty := true : BlockCache }.added 0x1000
      (nopBlock n (-1)) (-1) 1 := by
  show (getOrTranslate nopTranslator 0x1000 (nopSled n) (-1) 1
    (create 7 0x100000000 true none)).2 = _
  unfold getOrTranslate
  rw [translate_nopSled hn]
  rfl

/-- The order of insertion. -/
def insertionOrder : HashOrder := ⟨fun table => table.entries, fun _ => .refl _⟩

theorem savePersistent_nopCache {n : Nat} (hn : n < 2 ^ 16) :
    savePersistent 7 0x100000000 insertionOrder (nopCache n) =
      some (encodeFile 7 0x100000000 [⟨0x1000, (nopBlock n (-1)).record (-1)⟩]) := by
  have hfits : fitsWriter ⟨0x1000, (nopBlock n (-1)).record (-1)⟩ = true := by
    simp [fitsWriter, TranslatedBlock.record, nopBlock, nopSled]
    omega
  have hunused : (nopCache n).unusedRecords insertionOrder = [] := by rw [nopCache_eq hn]; rfl
  have hblocks : (nopCache n).blocks.entries = [⟨0x1000, 0⟩] := by rw [nopCache_eq hn]; rfl
  have hlive : (nopCache n).liveRecords (nopCache n).orderedBlocks =
      some [⟨0x1000, (nopBlock n (-1)).record (-1)⟩] := by
    rw [orderedBlocks, hblocks, nopCache_eq hn]
    rfl
  have hdirty : (nopCache n).persistentPath = true ∧ (nopCache n).persistentDirty = true := by
    rw [nopCache_eq hn]
    exact ⟨rfl, rfl⟩
  simp only [savePersistent, hdirty, hunused, hblocks, hlive, List.append_nil, List.all_cons,
    List.all_nil, hfits, Bool.not_true, Bool.or_self, Bool.and_self, if_true, Bool.false_eq_true,
    if_false, List.length_nil, List.length_singleton]
  rfl

theorem saved_nopCache {n : Nat} (hn : n < 2 ^ 16) {a : BitVec 64} {block : PersistentBlock} :
    (nopCache n).saved a = some block ↔
      a = 0x1000 ∧ block = (nopBlock n (-1)).record (-1) := by
  rw [nopCache_eq hn]
  by_cases ha : a = 0x1000
  · subst ha
    constructor
    · intro h
      exact ⟨rfl, (Option.some.inj h).symm⟩
    · rintro ⟨-, rfl⟩
      rfl
  · have hnone : (AList.insert 0x1000 0 ∅ : Table BlockId).lookup a = none := by
      rw [AList.lookup_insert_ne ha, AList.lookup_empty]
    simp only [saved, added, hnone, AList.lookup_empty]
    simp only [reduceCtorEq, ha, false_and]

theorem length_nopFile {n : Nat} (hn : n < 2 ^ 16) :
    (encodeFile 7 0x100000000 [⟨0x1000, (nopBlock n (-1)).record (-1)⟩]).length ≤
      maximumPersistentFileSize := by
  simp [encodeFile, encodeRecord, TranslatedBlock.record, nopBlock, nopSled, persistentMagic,
    maximumPersistentFileSize]
  omega

/-- A short sled is restored in a process with another anchor. -/
theorem roundTrips_savePersistent_nopSled :
    ∃ file, savePersistent 7 0x100000000 insertionOrder (nopCache 1) = some file ∧
      file.length ≤ maximumPersistentFileSize ∧
      RoundTrips 7 0x100000000 0x200000000 (nopCache 1) file := by
  refine ⟨_, savePersistent_nopCache (by decide), length_nopFile (by decide), ?_⟩
  refine (roundTrips_savePersistent_iff nopTranslator 7 0x100000000 0x200000000 true none
    [⟨0x1000, nopSled 1, -1, 1⟩] insertionOrder _ (savePersistent_nopCache (by decide))
    (length_nopFile (by decide))).mpr ⟨?_, fun a block hb => ?_⟩
  · show (nopCache 1).blocks.entries.length + ((nopCache 1).unusedRecords insertionOrder).length ≤ _
    rw [nopCache_eq (by decide)]
    decide
  · obtain ⟨rfl, rfl⟩ := (saved_nopCache (by decide)).mp hb
    exact ⟨⟨by decide, by decide, by decide⟩, fun o ho => by cases ho⟩

/-- A sled of 4096 `nop` is saved, and the file is thrown away by the next process. -/
theorem not_roundTrips_longSled :
    ∃ file, savePersistent 7 0x100000000 insertionOrder (nopCache 4096) = some file ∧
      file.length ≤ maximumPersistentFileSize ∧
      ¬RoundTrips 7 0x100000000 0x200000000 (nopCache 4096) file := by
  have hsave := savePersistent_nopCache (show 4096 < 2 ^ 16 by decide)
  have hsize := length_nopFile (show 4096 < 2 ^ 16 by decide)
  have hconsistent : Consistent (nopCache 4096) := (create_consistent _ _ _ _).afterAll _
  refine ⟨_, hsave, hsize, fun h => ?_⟩
  have hbounds := (hconsistent.roundTrips_iff hsave hsize).mp h
  have hsource := (hbounds.records 0x1000 _
    ((saved_nopCache (by decide)).mpr ⟨rfl, rfl⟩)).1.source
  have hlength : (nopSled 4096).length = 4097 := by
    rw [nopSled, List.length_append, List.length_replicate, List.length_singleton]
  exact absurd (hlength ▸ hsource) (by decide)

end BlockCache

end Rosa
