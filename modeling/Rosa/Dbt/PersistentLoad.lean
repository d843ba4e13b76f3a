import Rosa.Dbt.RoundTrip

/-!
# Loading any file

`loadPersistent` reads a file that anything may have written. Two models of its reader are
compared : the cursor of the code, whose check is a subtraction of 64-bit sizes, and the
reader of `Rosa.Logic.Codec`, which takes bytes from the front of a list. The cursor never
reads past the bytes, so the table it loads is that of the reader; and what the reader
accepts is the encoding of valid records with nothing before, between or after them.

The relocation of a program is studied bit by bit : it adds to the pointers and touches no
other bit, so the opposite slide takes it back.
-/

namespace Rosa

open Rosa.Computation Reader

/-! ## The bits of a relocated program -/

/-- The bit is in the immediate field of a word of the slot at the offset. -/
def InImmediate (offset bit : Nat) : Prop :=
  ∃ k < 4, 8 * (offset + k * 4) + 5 ≤ bit ∧ bit < 8 * (offset + k * 4) + 21

/-- No two relocation slots overlap. -/
def Program.DisjointSlots (program : Program) : Prop :=
  program.pointerRelocations.Pairwise fun a b =>
    a.toNat + 16 ≤ b.toNat ∨ b.toNat + 16 ≤ a.toNat

theorem getLsbD_readArmWord (bytes : List Byte) (offset : Nat) {i : Nat} (hi : i < 32) :
    (readArmWord bytes offset).getLsbD i =
      (bytes.getD (offset + i / 8) 0).getLsbD (i % 8) := by
  rw [readArmWord, getLsbD_ofLittleEndian _ _ hi]
  simp [List.getD, hi, List.getElem?_drop]

theorem getLsbD_immediate (word : BitVec 32) (i : Nat) :
    (immediate word).getLsbD i = (decide (i < 16) && word.getLsbD (5 + i)) := by
  simp only [immediate, BitVec.getLsbD_setWidth, BitVec.getLsbD_and, BitVec.getLsbD_ushiftRight]
  rcases Nat.lt_or_ge i 32 with h | h
  · rw [getLsbD_halfwordMask32 i h, Bool.and_comm (word.getLsbD _)]
    simp [show i < 64 by omega]
  · rw [BitVec.getLsbD_of_ge (0xFFFF#32) _ h]
    simp [show ¬i < 16 by omega]

/-- A bit of the pointer is a bit of the immediate field it stands in. -/
theorem getLsbD_pointerAt (bytes : List Byte) (offset : Nat) {k t : Nat} (hk : k < 4)
    (ht : t < 16) : (pointerAt bytes offset).getLsbD (16 * k + t) =
      (readArmWord bytes (offset + k * 4)).getLsbD (5 + t) := by
  have hcase : k = 0 ∨ k = 1 ∨ k = 2 ∨ k = 3 := by omega
  simp only [pointerAt, List.range_succ, List.range_zero, List.nil_append, List.foldl_append,
    List.foldl_cons, List.foldl_nil, BitVec.getLsbD_or, BitVec.getLsbD_shiftLeft,
    show 16 * k + t < 64 by omega, decide_true, Bool.true_and, getLsbD_immediate]
  rcases hcase with rfl | rfl | rfl | rfl
  · simp [ht, show t < 2 * 16 by omega, show t < 3 * 16 by omega]
  · simp [ht, show ¬16 + t < 16 by omega, show 16 + t < 2 * 16 by omega,
      show 16 + t < 3 * 16 by omega]
  · simp [ht, show ¬32 + t < 16 by omega, show ¬32 + t - 16 < 16 by omega,
      show 32 + t < 3 * 16 by omega]
  · simp [ht, show ¬48 + t < 16 by omega, show ¬48 + t - 16 < 16 by omega,
      show ¬48 + t - 32 < 16 by omega]

section

variable {bytes bytes' : List Byte} {offset : Nat}

/-- Outside the immediates of a slot, words that differ in immediates only agree. -/
theorem SameCodeBits.getLsbD (h : SameCodeBits bytes bytes') (haligned : offset % 4 = 0)
    (hfits : offset + 16 ≤ bytes.length) {j i : Nat} (hj : offset ≤ j) (hj' : j < offset + 16)
    (hi : i < 8) (hout : ¬InImmediate offset (8 * j + i)) :
    (bytes'.getD j 0).getLsbD i = (bytes.getD j 0).getLsbD i := by
  obtain ⟨k, m, hk, hm, rfl⟩ : ∃ k m, k < 4 ∧ m < 4 ∧ j = offset + k * 4 + m :=
    ⟨(j - offset) / 4, (j - offset) % 4, by omega, by omega, by omega⟩
  obtain ⟨-, hword⟩ := h.words (offset + k * 4) (by omega) (by omega) k
  have hbit := congrArg (fun word : BitVec 32 => word.getLsbD (8 * m + i)) hword
  have hmask : ¬(5 ≤ 8 * m + i ∧ 8 * m + i < 21) := fun hin => hout ⟨k, hk, by omega, by omega⟩
  have hfree : (decide (5 ≤ 8 * m + i) && decide (8 * m + i < 21)) = false := by
    simpa using fun h5 => Nat.not_lt.mp fun h21 => hmask ⟨h5, h21⟩
  simp only [BitVec.getLsbD_and, BitVec.getLsbD_not,
    getLsbD_immediateMask _ (show 8 * m + i < 32 by omega), hfree, show 8 * m + i < 32 by omega,
    decide_true, Bool.not_false, Bool.and_true] at hbit
  rw [getLsbD_readArmWord _ _ (by omega), getLsbD_readArmWord _ _ (by omega),
    show (8 * m + i) / 8 = m by omega, show (8 * m + i) % 8 = i by omega] at hbit
  exact hbit

/-- The pointer of a slot fixes the bits of its immediates. -/
theorem getLsbD_of_pointerAt_eq (h : pointerAt bytes' offset = pointerAt bytes offset) {j i : Nat}
    (hj : offset ≤ j) (hi : i < 8) (hin : InImmediate offset (8 * j + i)) :
    (bytes'.getD j 0).getLsbD i = (bytes.getD j 0).getLsbD i := by
  obtain ⟨k, hk, hlow, hhigh⟩ := hin
  obtain ⟨m, rfl⟩ : ∃ m, j = offset + k * 4 + m := ⟨j - (offset + k * 4), by omega⟩
  have hbit := congrArg (fun pointer : BitVec 64 => pointer.getLsbD (16 * k + (8 * m + i - 5))) h
  simp only [getLsbD_pointerAt _ _ hk (show 8 * m + i - 5 < 16 by omega),
    show 5 + (8 * m + i - 5) = 8 * m + i by omega] at hbit
  rw [getLsbD_readArmWord _ _ (by omega), getLsbD_readArmWord _ _ (by omega),
    show (8 * m + i) / 8 = m by omega, show (8 * m + i) % 8 = i by omega] at hbit
  exact hbit

theorem getD_eq_of_getElem?_eq {j : Nat} (h : bytes'[j]? = bytes[j]?) :
    bytes'.getD j 0 = bytes.getD j 0 := by
  rw [List.getD_eq_getElem?_getD, List.getD_eq_getElem?_getD, h]

theorem eq_of_getLsbD (hlength : bytes'.length = bytes.length)
    (h : ∀ j < bytes.length, ∀ i < 8,
      (bytes'.getD j 0).getLsbD i = (bytes.getD j 0).getLsbD i) : bytes' = bytes := by
  refine List.ext_getElem hlength fun j hj hj' => ?_
  apply BitVec.eq_of_getLsbD_eq
  intro i hi
  simpa [List.getD, hj, hj'] using h j hj' i hi

end

/-- With disjoint slots a pointer is listed once. -/
theorem Program.DisjointSlots.count {program : Program} (h : program.DisjointSlots)
    {o : BitVec 32} (ho : o ∈ program.pointerRelocations) :
    program.pointerRelocations.count o = 1 := by
  refine List.count_eq_one_of_mem (List.Pairwise.imp (fun hab => ?_) h) ho
  rintro rfl
  omega

/-- What the relocation of a program with disjoint slots does, and that it is undone by the
opposite slide. -/
structure Relocates (slide : BitVec 64) (program result : Program) : Prop where
  pointerRelocations : result.pointerRelocations = program.pointerRelocations
  length : result.bytes.length = program.bytes.length
  pointers : ∀ o ∈ program.pointerRelocations,
    pointerAt result.bytes o.toNat = pointerAt program.bytes o.toNat + slide
  otherBits : ∀ j < program.bytes.length, ∀ i < 8,
    (∀ o ∈ program.pointerRelocations, ¬InImmediate o.toNat (8 * j + i)) →
      (result.bytes.getD j 0).getLsbD i = (program.bytes.getD j 0).getLsbD i

section

variable {slide : BitVec 64} {program : Program}

/-- The loop on disjoint slots. -/
theorem relocateBytes_of_disjoint (slide : BitVec 64) (h : program.DisjointSlots)
    (hcode : ∀ o ∈ program.pointerRelocations, PointerCode program.bytes o.toNat) :
    ∃ bytes, relocateBytes slide program.pointerRelocations program.bytes = .ok bytes ∧
      SameCodeBits program.bytes bytes ∧ Relocates slide program { program with bytes } := by
  rcases relocateBytes_spec slide program.pointerRelocations program.bytes with
    ⟨-, bytes, hbytes, hbits, hout, hpointers⟩ | ⟨⟨o, ho, hbad⟩, -⟩
  · refine ⟨bytes, hbytes, hbits, rfl, hbits.length, fun o ho => ?_, fun j _ i hi hfree => ?_⟩
    · rw [hpointers o (hcode o ho), h.count ho, BitVec.one_mul]
    · by_cases hin : ∃ o ∈ program.pointerRelocations, o.toNat ≤ j ∧ j < o.toNat + 16
      · obtain ⟨o, ho, hj, hj'⟩ := hin
        exact hbits.getLsbD (hcode o ho).aligned (hcode o ho).fits hj hj' hi (hfree o ho)
      · refine congrArg (fun byte : Byte => byte.getLsbD i)
          (getD_eq_of_getElem?_eq (hout j fun o ho => ?_))
        by_contra hover
        exact hin ⟨o, ho, by omega, by omega⟩
  · exact absurd (hcode o ho) hbad

/-- The slide and then its opposite. -/
theorem relocateBytes_back (h : program.DisjointSlots)
    (hcode : ∀ o ∈ program.pointerRelocations, PointerCode program.bytes o.toNat)
    {bytes : List Byte}
    (hbytes : relocateBytes slide program.pointerRelocations program.bytes = .ok bytes) :
    relocateBytes (-slide) program.pointerRelocations bytes = .ok program.bytes := by
  obtain ⟨forth, hforth, hbits, hthere⟩ := relocateBytes_of_disjoint slide h hcode
  obtain rfl : forth = bytes := Except.ok.inj (hforth.symm.trans hbytes)
  have hcode' : ∀ o ∈ program.pointerRelocations, PointerCode forth o.toNat :=
    fun o ho => hbits.pointerCode_iff.mpr (hcode o ho)
  obtain ⟨back, hback, hbits', hagain⟩ := relocateBytes_of_disjoint (-slide)
    (show Program.DisjointSlots { program with bytes := forth } from h) hcode'
  rw [hback]
  refine congrArg Except.ok (eq_of_getLsbD (hbits'.length.trans hbits.length) fun j hj i hi => ?_)
  by_cases hin : ∃ o ∈ program.pointerRelocations, InImmediate o.toNat (8 * j + i)
  · obtain ⟨o, ho, hin⟩ := hin
    refine getLsbD_of_pointerAt_eq ?_ ?_ hi hin
    · have h1 := hagain.pointers o ho
      have h2 := hthere.pointers o ho
      dsimp only at h1 h2
      rw [h1, h2, BitVec.add_assoc, BitVec.add_right_neg, BitVec.add_zero]
    · obtain ⟨k, -, hlow, -⟩ := hin
      omega
  · have hfree : ∀ o ∈ program.pointerRelocations, ¬InImmediate o.toNat (8 * j + i) :=
      fun o ho hbad => hin ⟨o, ho, hbad⟩
    exact (hagain.otherBits j (hbits.length ▸ hj) i hi hfree).trans
      (hthere.otherBits j hj i hi hfree)

end

/-- `relocateProgram` on a program with disjoint slots : it throws if a relocation does not
name the code of a pointer, and otherwise shifts the pointers and no other bit, and shifts
them back. -/
theorem relocateProgram_of_disjoint (anchor oldAnchor : BitVec 64) {program : Program}
    (h : program.DisjointSlots) :
    ((∀ o ∈ program.pointerRelocations, PointerCode program.bytes o.toNat) ∧
      ∃ result, relocateProgram anchor oldAnchor program = .ok result ∧
        Relocates (anchor - oldAnchor) program result ∧
        ∀ anchor' oldAnchor', anchor' - oldAnchor' = -(anchor - oldAnchor) →
          relocateProgram anchor' oldAnchor' result = .ok program) ∨
    ((∃ o ∈ program.pointerRelocations, ¬PointerCode program.bytes o.toNat) ∧
      ∃ message, relocateProgram anchor oldAnchor program = .error message) := by
  by_cases hcode : ∀ o ∈ program.pointerRelocations, PointerCode program.bytes o.toNat
  · obtain ⟨bytes, hbytes, -, hrelocates⟩ :=
      relocateBytes_of_disjoint (anchor - oldAnchor) h hcode
    refine .inl ⟨hcode, { program with bytes }, ?_, hrelocates, fun anchor' oldAnchor' hback => ?_⟩
    · rw [relocateProgram, hbytes]
    · rw [relocateProgram, hback, relocateBytes_back h hcode hbytes]
  · rcases relocateBytes_spec (anchor - oldAnchor) program.pointerRelocations program.bytes with
      ⟨hall, -⟩ | ⟨hbad, message, herror⟩
    · exact absurd hall hcode
    · exact .inr ⟨hbad, message, by rw [relocateProgram, herror]⟩

/-! ## What an accepted file is made of -/

/-- A record as it stands in a file. -/
structure RawRecord where
  address : BitVec 64
  maximumInstructions : BitVec 64
  flags : BitVec 32
  callReturnAddress : BitVec 64
  lastInstructionAddress : BitVec 64
  sourceBytes : List Byte
  program : Program
  deriving DecidableEq, Repr

namespace RawRecord

/-- The bytes of the record. -/
def encode (record : RawRecord) : List Byte :=
  littleEndian 8 record.address ++ (littleEndian 8 record.maximumInstructions ++
    (littleEndian 4 (BitVec.ofNat 32 record.sourceBytes.length) ++
    (littleEndian 4 (BitVec.ofNat 32 record.program.bytes.length) ++
    (littleEndian 4 (BitVec.ofNat 32 record.program.pointerRelocations.length) ++
    (littleEndian 4 record.flags ++ (littleEndian 8 record.callReturnAddress ++
    (littleEndian 8 record.lastInstructionAddress ++
    (record.sourceBytes ++ (record.program.bytes ++
    record.program.pointerRelocations.flatMap (littleEndian 4))))))))))

/-- What the loader checks of a record. -/
structure Valid (record : RawRecord) : Prop where
  maximumInstructions : record.maximumInstructions ≠ 0
  source : record.sourceBytes ≠ []
  sourceSize : record.sourceBytes.length ≤ 4096
  program : record.program.bytes ≠ []
  programSize : record.program.bytes.length ≤ 2 ^ 20
  relocationCount : record.program.pointerRelocations.length ≤ 2 ^ 16
  flags : record.flags &&& ~~~3#32 = 0
  lastAfter : record.address.toNat ≤ record.lastInstructionAddress.toNat
  lastInside : record.lastInstructionAddress.toNat <
    record.address.toNat + record.sourceBytes.length
  relocations : ∀ o ∈ record.program.pointerRelocations, PointerCode record.program.bytes o.toNat

/-- The block of a record, with this program in place of its own. -/
def block (record : RawRecord) (program : Program) : PersistentBlock where
  sourceBytes := record.sourceBytes
  program
  maximumInstructions := record.maximumInstructions
  hasInternalSelfEdge := (record.flags &&& 1#32) != 0
  callReturnAddress := if (record.flags &&& 2#32) != 0 then some record.callReturnAddress else none
  lastInstructionAddress := record.lastInstructionAddress

/-- The block is that of the record, its program relocated. -/
def Becomes (anchor oldAnchor : BitVec 64) (record : RawRecord) (block : PersistentBlock) : Prop :=
  ∃ program, relocateProgram anchor oldAnchor record.program = .ok program ∧
    block = record.block program

end RawRecord

/-- The file with these records. -/
def rawFile (fingerprint oldAnchor : BitVec 64) (records : List RawRecord) : List Byte :=
  persistentMagic ++ (littleEndian 4 persistentVersion ++ (littleEndian 8 fingerprint ++
    (littleEndian 8 oldAnchor ++ (littleEndian 4 (BitVec.ofNat 32 records.length) ++
    records.flatMap RawRecord.encode))))

/-- The table is the first one and these records, valid and at addresses of their own. -/
structure Extends (anchor oldAnchor : BitVec 64) (table : Table PersistentBlock)
    (records : List RawRecord) (result : Table PersistentBlock) : Prop where
  valid : ∀ record ∈ records, record.Valid
  fresh : ∀ record ∈ records, table.lookup record.address = none
  nodup : (records.map RawRecord.address).Nodup
  lookup : ∀ address block, result.lookup address = some block ↔
    table.lookup address = some block ∨
      ∃ record ∈ records, record.address = address ∧ record.Becomes anchor oldAnchor block

section

variable {anchor oldAnchor fingerprint : BitVec 64}

theorem parses_readU32 : Parses readU32 fun taken value => taken = littleEndian 4 value :=
  Parses.takeWord rfl

theorem parses_readU64 : Parses readU64 fun taken value => taken = littleEndian 8 value :=
  Parses.takeWord rfl

theorem relocateProgram_code {program result : Program}
    (h : relocateProgram anchor oldAnchor program = .ok result) :
    ∀ o ∈ program.pointerRelocations, PointerCode program.bytes o.toNat := by
  rcases relocateBytes_spec (anchor - oldAnchor) program.pointerRelocations program.bytes with
    ⟨hall, -⟩ | ⟨-, message, herror⟩
  · exact hall
  · rw [relocateProgram, herror] at h
    cases h

/-- The header check, with the bytes it counts. -/
theorem valid_of_invalidRecord {record : RawRecord}
    {sourceSize programSize relocationCount : BitVec 32}
    (h : invalidRecord record.address record.maximumInstructions sourceSize programSize
      relocationCount record.flags record.lastInstructionAddress = false)
    (hsource : record.sourceBytes.length = sourceSize.toNat)
    (hprogram : record.program.bytes.length = programSize.toNat)
    (hrelocations : record.program.pointerRelocations.length = relocationCount.toNat)
    (hcode : ∀ o ∈ record.program.pointerRelocations, PointerCode record.program.bytes o.toNat) :
    record.Valid := by
  simp only [invalidRecord, Bool.or_eq_false_iff, beq_eq_false_iff_ne, ne_eq,
    decide_eq_false_iff_not, not_lt, not_le, bne_eq_false_iff_eq] at h
  obtain ⟨⟨⟨⟨⟨⟨⟨⟨⟨hmax, -⟩, hsource0⟩, hsource1⟩, hprogram0⟩, hprogram1⟩, hcount⟩, hflags⟩, hge⟩,
    hlast⟩ := h
  have hne {n : BitVec 32} (hn : ¬n = 0) : 0 < n.toNat := by
    rcases Nat.eq_zero_or_pos n.toNat with h0 | h0
    · exact absurd (BitVec.eq_of_toNat_eq h0) hn
    · exact h0
  have hle : record.address ≤ record.lastInstructionAddress := BitVec.not_lt.mp hge
  rw [BitVec.toNat_sub_of_le hle] at hlast
  have hle' : record.address.toNat ≤ record.lastInstructionAddress.toNat := hle
  exact {
    maximumInstructions := hmax
    source := List.length_pos_iff.mp (hsource ▸ hne hsource0)
    sourceSize := hsource ▸ hsource1
    program := List.length_pos_iff.mp (hprogram ▸ hne hprogram0)
    programSize := hprogram ▸ hprogram1
    relocationCount := hrelocations ▸ hcount
    flags := hflags
    lastAfter := hle'
    lastInside := by omega
    relocations := hcode }

/-- A record is accepted only if it is valid, and from exactly its bytes. -/
theorem parses_loadRecord : Parses (loadRecord anchor oldAnchor) fun taken loaded =>
    ∃ record : RawRecord, record.Valid ∧ taken = record.encode ∧ record.address = loaded.1 ∧
      record.Becomes anchor oldAnchor loaded.2 := by
  unfold loadRecord
  refine parses_readU64.bind fun address t1 h1 => ?_
  refine parses_readU64.bind fun maximumInstructions t2 h2 => ?_
  refine parses_readU32.bind fun sourceSize t3 h3 => ?_
  refine parses_readU32.bind fun programSize t4 h4 => ?_
  refine parses_readU32.bind fun relocationCount t5 h5 => ?_
  refine parses_readU32.bind fun flags t6 h6 => ?_
  refine parses_readU64.bind fun callReturnAddress t7 h7 => ?_
  refine parses_readU64.bind fun lastInstructionAddress t8 h8 => ?_
  refine Parses.raiseIf_bind fun hvalid => ?_
  refine Parses.takeBytes.bind fun sourceBytes t9 ⟨h9, hsource⟩ => ?_
  refine Parses.takeBytes.bind fun bytes t10 ⟨h10, hprogram⟩ => ?_
  refine (Parses.takeMany parses_readU32 _).bind fun relocations t11 ⟨h11, hrelocations⟩ => ?_
  cases hrelocate : relocateProgram anchor oldAnchor ⟨bytes, relocations⟩ with
  | error message => exact Parses.bind (R := fun _ _ => False) Parses.raise fun _ _ h => h.elim
  | ok program =>
    refine Parses.bind (R := fun taken result => taken = [] ∧ result = program)
      (Parses.pure ⟨rfl, rfl⟩) fun result t12 ⟨h12, hresult⟩ => Parses.pure ?_
    subst h1 h2 h3 h4 h5 h6 h7 h8 h9 h10 h11 h12 hresult
    have hsize {n : Nat} {size : BitVec 32} (h : n = size.toNat) : BitVec.ofNat 32 n = size := by
      rw [h, BitVec.ofNat_toNat, BitVec.setWidth_eq]
    refine ⟨⟨address, maximumInstructions, flags, callReturnAddress, lastInstructionAddress, t9,
      ⟨t10, relocations⟩⟩, valid_of_invalidRecord hvalid hsource hprogram hrelocations
        (relocateProgram_code hrelocate), ?_, rfl, result, hrelocate, rfl⟩
    simp only [RawRecord.encode, hsize hsource, hsize hprogram, hsize hrelocations,
      List.append_nil]

theorem Extends.nil (table : Table PersistentBlock) : Extends anchor oldAnchor table [] table :=
  ⟨by simp, by simp, by simp, by simp⟩

theorem Extends.cons {table result : Table PersistentBlock} {record : RawRecord}
    {records : List RawRecord} {block : PersistentBlock} (hvalid : record.Valid)
    (hfresh : table.lookup record.address = none) (hblock : record.Becomes anchor oldAnchor block)
    (h : Extends anchor oldAnchor (table.insert record.address block) records result) :
    Extends anchor oldAnchor table (record :: records) result := by
  have hne {other : RawRecord} (ho : other ∈ records) : other.address ≠ record.address := by
    intro he
    have := h.fresh other ho
    rw [he, AList.lookup_insert] at this
    cases this
  refine ⟨?_, ?_, ?_, fun address other => ?_⟩
  · exact List.forall_mem_cons.mpr ⟨hvalid, h.valid⟩
  · refine List.forall_mem_cons.mpr ⟨hfresh, fun other ho => ?_⟩
    rw [← AList.lookup_insert_ne (hne ho)]
    exact h.fresh other ho
  · rw [List.map_cons, List.nodup_cons]
    refine ⟨fun hmem => ?_, h.nodup⟩
    obtain ⟨other, ho, he⟩ := List.mem_map.mp hmem
    exact hne ho he
  · rw [h.lookup]
    by_cases ha : address = record.address
    · subst ha
      rw [AList.lookup_insert, hfresh]
      constructor
      · rintro (he | ⟨r, hr, he, -⟩)
        · obtain rfl := Option.some.inj he
          exact .inr ⟨record, by simp, rfl, hblock⟩
        · exact absurd he (hne hr)
      · rintro (he | ⟨r, hr, he, hbecomes⟩)
        · cases he
        · rcases List.mem_cons.mp hr with rfl | hr
          · obtain ⟨program, hprogram, rfl⟩ := hblock
            obtain ⟨program', hprogram', rfl⟩ := hbecomes
            obtain rfl := Except.ok.inj (hprogram.symm.trans hprogram')
            exact .inl rfl
          · exact absurd he (hne hr)
    · rw [AList.lookup_insert_ne ha]
      refine or_congr Iff.rfl ⟨?_, ?_⟩
      · rintro ⟨r, hr, he⟩
        exact ⟨r, List.mem_cons_of_mem _ hr, he⟩
      · rintro ⟨r, hr, he, hbecomes⟩
        rcases List.mem_cons.mp hr with rfl | hr
        · exact absurd he.symm ha
        · exact ⟨r, hr, he, hbecomes⟩

theorem parses_loadRecords : ∀ (count : Nat) (table : Table PersistentBlock),
    Parses (loadRecords anchor oldAnchor count table) fun taken result =>
      ∃ records : List RawRecord, records.length = count ∧
        taken = records.flatMap RawRecord.encode ∧ Extends anchor oldAnchor table records result
  | 0, table => Parses.pure ⟨[], rfl, rfl, Extends.nil table⟩
  | count + 1, table => by
    rw [loadRecords]
    refine parses_loadRecord.bind ?_
    rintro loaded taken ⟨record, hvalid, htaken, haddress, hblock⟩
    refine Parses.raiseIf_bind fun hfresh => (parses_loadRecords count _).mono ?_
    rintro taken' result ⟨records, hcount, htaken', h⟩
    rw [← haddress] at h hfresh
    refine ⟨record :: records, by simp [hcount], ?_, h.cons hvalid (by simpa using hfresh) hblock⟩
    rw [htaken, htaken', List.flatMap_cons]

/-- The bytes are a file of this build, and the table has its records and nothing else. -/
def HoldsRecords (fingerprint anchor : BitVec 64) (bytes : List Byte)
    (table : Table PersistentBlock) : Prop :=
  ∃ oldAnchor records, bytes = rawFile fingerprint oldAnchor records ∧
    records.length ≤ maximumPersistentRecords ∧ Extends anchor oldAnchor ∅ records table

/-- The blocks of the table are in the bounds of the loader. -/
def WithinLoader (table : Table PersistentBlock) : Prop :=
  ∀ address block, table.lookup address = some block →
    block.Ok address ∧ block.sourceBytes.length ≤ 4096

theorem HoldsRecords.withinLoader {bytes : List Byte} {table : Table PersistentBlock}
    (h : HoldsRecords fingerprint anchor bytes table) : WithinLoader table := by
  obtain ⟨oldAnchor, records, -, -, h⟩ := h
  intro address block hblock
  rcases (h.lookup address block).mp hblock with hempty | ⟨record, hr, rfl, program, hprogram, rfl⟩
  · rw [AList.lookup_empty] at hempty
    cases hempty
  · have hvalid := h.valid record hr
    obtain ⟨-, hlength, hcode⟩ := relocateProgram_ok hprogram
    have hafter := hvalid.lastAfter
    have hinside := hvalid.lastInside
    refine ⟨⟨hvalid.maximumInstructions, hvalid.source, ?_, ?_, hcode⟩, hvalid.sourceSize⟩
    · rw [← List.length_pos_iff]
      have := List.length_pos_iff.mpr hvalid.program
      simp only [RawRecord.block]
      omega
    · exact ⟨record.lastInstructionAddress.toNat - record.address.toNat,
        by simp only [RawRecord.block]; omega, by simp only [RawRecord.block]; omega⟩

/-- A file that is loaded is empty, of another format or build, or its records to the last
byte. -/
theorem loadFile_post (fingerprint anchor : BitVec 64) (bytes : List Byte) : Post (loadFile fingerprint anchor) bytes
    (fun table _ => table = ∅ ∨ HoldsRecords fingerprint anchor bytes table) fun _ _ => True := by
  unfold loadFile
  refine Post.bind ((Parses.takeBytes _).mono ?_ fun _ _ _ => trivial)
  rintro magic s1 ⟨t1, rfl, rfl, -⟩
  split
  · exact Post.pure (.inl rfl)
  · next hmagic =>
    refine Post.bind ((parses_readU32 _).mono ?_ fun _ _ _ => trivial)
    rintro version s2 ⟨t2, rfl, rfl⟩
    split
    · exact Post.pure (.inl rfl)
    · next hversion =>
      refine Post.bind ((parses_readU64 _).mono ?_ fun _ _ _ => trivial)
      rintro build s3 ⟨t3, rfl, rfl⟩
      split
      · exact Post.pure (.inl rfl)
      · next hbuild =>
        refine Post.bind ((parses_readU64 _).mono ?_ fun _ _ _ => trivial)
        rintro oldAnchor s4 ⟨t4, rfl, rfl⟩
        refine Post.bind ((parses_readU32 _).mono ?_ fun _ _ _ => trivial)
        rintro count s5 ⟨t5, rfl, rfl⟩
        refine Post.bind (Post.raiseIf (fun _ => trivial) fun hcount => ?_)
        refine Post.bind ((parses_loadRecords _ _ _).mono ?_ fun _ _ _ => trivial)
        rintro table s6 ⟨t6, rfl, records, hlength, rfl, h⟩
        refine Post.bind ?_
        by_cases hrest : s6 = []
        · subst hrest
          simp only [Post, requireFinished, if_true]
          rw [bne_iff_ne, ne_eq, not_not] at hmagic hversion hbuild
          refine .inr ⟨oldAnchor, records, ?_, ?_, h⟩
          · rw [rawFile, hmagic, hversion, hbuild, hlength, BitVec.ofNat_toNat,
              BitVec.setWidth_eq, List.append_nil]
          · rw [hlength]
            exact Nat.not_lt.mp (of_decide_eq_false hcount)
        · simp only [Post, requireFinished, hrest, if_false]

end

/-! ## The cursor

The same functions over the cursor of the code. A read outside the bytes, which the code
does not check for, is an outcome of its own. -/

/-- Why loading stops : an exception, or a read past the end of the bytes. -/
inductive LoadFault
  | thrown (message : String)
  | pastEnd
  deriving DecidableEq, Repr

/-- `PersistentReader` : the bytes and a 64-bit cursor. -/
structure PersistentReader where
  bytes : List Byte
  offset : BitVec 64
  deriving DecidableEq, Repr

/-- A computation with the cursor. -/
abbrev CursorReader (α : Type) := Computation PersistentReader LoadFault α

namespace PersistentReader

/-- `span::subspan` : the bytes there, if the span has them all. -/
def subspan (bytes : List Byte) (offset size : Nat) : Option (List Byte) :=
  if offset + size ≤ bytes.length then some ((bytes.drop offset).take size) else none

/-- `PersistentReader::readBytes`. -/
def readBytes (size : BitVec 64) : CursorReader (List Byte) := fun reader =>
  if BitVec.ofNat 64 reader.bytes.length - reader.offset < size then
    (.error (.thrown "persistent translation cache is truncated"), reader)
  else
    match subspan reader.bytes reader.offset.toNat size.toNat with
    | none => (.error .pastEnd, reader)
    | some result => (.ok result, { reader with offset := reader.offset + size })

/-- `PersistentReader::readU32`. -/
def readU32 : CursorReader (BitVec 32) := do
  let bytes ← readBytes 4
  pure (ofLittleEndian 32 4 bytes)

/-- `PersistentReader::readU64`. -/
def readU64 : CursorReader (BitVec 64) := do
  let bytes ← readBytes 8
  pure (ofLittleEndian 64 8 bytes)

/-- `PersistentReader::finished`. -/
def finished : CursorReader Bool := fun reader =>
  (.ok (reader.offset == BitVec.ofNat 64 reader.bytes.length), reader)

/-- The loop over the relocations of a record. -/
def readRelocations : Nat → CursorReader (List (BitVec 32))
  | 0 => pure []
  | count + 1 => do
    let relocation ← readU32
    let rest ← readRelocations count
    pure (relocation :: rest)

/-- The words of a slot that are still to be checked, read from the program. -/
def checkWords (bytes : List Byte) (offset : Nat) : List Nat → Except LoadFault Unit
  | [] => .ok ()
  | halfword :: halfwords =>
    match subspan bytes (offset + halfword * 4) 4 with
    | none => .error .pastEnd
    | some word =>
      if !isPointerWord (ofLittleEndian 32 4 word) halfword then
        .error (.thrown "persistent translation cache relocation code is invalid")
      else checkWords bytes offset halfwords

/-- The loop of `relocateProgram`. -/
def relocateBytes (slide : BitVec 64) : List (BitVec 32) → List Byte → Except LoadFault (List Byte)
  | [], bytes => .ok bytes
  | offset :: offsets, bytes =>
    if offset.toNat % 4 != 0 || bytes.length < offset.toNat || bytes.length - offset.toNat < 16 then
      .error (.thrown "persistent translation cache has an invalid relocation")
    else
      match checkWords bytes offset.toNat (List.range 4) with
      | .error fault => .error fault
      | .ok _ =>
        relocateBytes slide offsets
          (writePointer bytes offset.toNat (pointerAt bytes offset.toNat + slide))

/-- `relocateProgram`. -/
def relocateProgram (anchor oldAnchor : BitVec 64) (program : Program) : CursorReader Program :=
  match relocateBytes (anchor - oldAnchor) program.pointerRelocations program.bytes with
  | .error fault => raise fault
  | .ok bytes => pure { program with bytes }

/-- One turn of the loop of `loadPersistent`, up to the table. -/
def loadRecord (anchor oldAnchor : BitVec 64) : CursorReader Record := do
  let address ← readU64
  let maximumInstructions ← readU64
  let sourceSize ← readU32
  let programSize ← readU32
  let relocationCount ← readU32
  let flags ← readU32
  let callReturnAddress ← readU64
  let lastInstructionAddress ← readU64
  raiseIf
    (invalidRecord address maximumInstructions sourceSize programSize relocationCount flags
      lastInstructionAddress)
    (.thrown "persistent translation cache record is invalid")
  let sourceBytes ← readBytes (sourceSize.setWidth 64)
  let bytes ← readBytes (programSize.setWidth 64)
  let pointerRelocations ← readRelocations relocationCount.toNat
  let program ← relocateProgram anchor oldAnchor ⟨bytes, pointerRelocations⟩
  pure ⟨address,
    { sourceBytes
      program
      maximumInstructions
      hasInternalSelfEdge := (flags &&& 1#32) != 0
      callReturnAddress := if (flags &&& 2#32) != 0 then some callReturnAddress else none
      lastInstructionAddress }⟩

/-- The loop of `loadPersistent`. -/
def loadRecords (anchor oldAnchor : BitVec 64) :
    Nat → Table PersistentBlock → CursorReader (Table PersistentBlock)
  | 0, table => pure table
  | count + 1, table => do
    let record ← loadRecord anchor oldAnchor
    raiseIf (table.lookup record.1).isSome
      (.thrown "persistent translation cache repeats a guest address")
    loadRecords anchor oldAnchor count (table.insert record.1 record.2)

/-- The body of `loadPersistent` up to the publishing of the programs. -/
def loadFile (fingerprint anchor : BitVec 64) : CursorReader (Table PersistentBlock) := do
  let magic ← readBytes (BitVec.ofNat 64 persistentMagic.length)
  if magic != persistentMagic then pure ∅
  else
    let version ← readU32
    if version != persistentVersion then pure ∅
    else
      let build ← readU64
      if build != fingerprint then pure ∅
      else
        let oldAnchor ← readU64
        let recordCount ← readU32
        raiseIf (decide (maximumPersistentRecords < recordCount.toNat))
          (.thrown "persistent translation cache has too many records")
        let table ← loadRecords anchor oldAnchor recordCount.toNat ∅
        let done ← finished
        raiseIf (!done) (.thrown "persistent translation cache has trailing data")
        pure table

end PersistentReader

/-- What `loadPersistent` meets outside the bytes of its file : the path may not be
inspected, opened or read, and the arena may not take the programs of the table. -/
structure Surroundings where
  file : Except String (Option (List Byte))
  publishBatch : Table PersistentBlock → Except String Unit

namespace BlockCache

/-- `loadPersistent`. Of an empty table nothing is published. -/
def loadFrom (fingerprint anchor : BitVec 64) (surroundings : Surroundings) :
    Except LoadFault (Table PersistentBlock) :=
  match surroundings.file with
  | .error message => .error (.thrown message)
  | .ok none => .ok ∅
  | .ok (some bytes) =>
    if maximumPersistentFileSize < bytes.length then
      .error (.thrown "persistent translation cache has an invalid file size")
    else
      match (PersistentReader.loadFile fingerprint anchor ⟨bytes, 0⟩).1 with
      | .error fault => .error fault
      | .ok table =>
        if table.entries.isEmpty then .ok table
        else
          match surroundings.publishBatch table with
          | .error message => .error (.thrown message)
          | .ok _ => .ok table

/-- The constructor. -/
def construct (fingerprint anchor : BitVec 64) (persistentPath : Bool)
    (surroundings : Surroundings) : BlockCache where
  persistentPath
  persistentBlocks :=
    if persistentPath then
      match loadFrom fingerprint anchor surroundings with
      | .ok table => table
      | .error _ => ∅
    else ∅

end BlockCache

/-! ### The cursor follows the reader -/

/-- From every cursor inside the bytes the computation does what the reader does with the
bytes from there on, and leaves the cursor inside them. -/
def CursorFollows {α : Type} (y : CursorReader α) (x : Reader String α) : Prop :=
  ∀ (bytes : List Byte) (offset : BitVec 64), bytes.length < 2 ^ 64 →
    offset.toNat ≤ bytes.length → ∃ offset' : BitVec 64, offset'.toNat ≤ bytes.length ∧
      y ⟨bytes, offset⟩ =
        ((x (bytes.drop offset.toNat)).1.mapError LoadFault.thrown, ⟨bytes, offset'⟩) ∧
      (x (bytes.drop offset.toNat)).2 = bytes.drop offset'.toNat

section

variable {α β : Type}

theorem CursorFollows.pure (a : α) : CursorFollows (Pure.pure a) (Pure.pure a) :=
  fun _ offset _ hoffset => ⟨offset, hoffset, rfl, rfl⟩

theorem CursorFollows.raise (message : String) :
    CursorFollows (Computation.raise (.thrown message) : CursorReader α)
      (Computation.raise message) :=
  fun _ offset _ hoffset => ⟨offset, hoffset, rfl, rfl⟩

theorem CursorFollows.bind {y : CursorReader α} {x : Reader String α} {g : α → CursorReader β}
    {f : α → Reader String β} (h : CursorFollows y x) (hf : ∀ a, CursorFollows (g a) (f a)) :
    CursorFollows (y >>= g) (x >>= f) := by
  intro bytes offset hlength hoffset
  obtain ⟨offset', hoffset', hy, hleft⟩ := h bytes offset hlength hoffset
  obtain ⟨outcome, rest, hx⟩ : ∃ outcome rest, x (bytes.drop offset.toNat) = (outcome, rest) :=
    ⟨_, _, rfl⟩
  rw [hx] at hy hleft
  obtain rfl : rest = bytes.drop offset'.toNat := hleft
  cases outcome with
  | error message => exact ⟨offset', hoffset', by rw [bind_error hy, bind_error hx]; rfl,
      by rw [bind_error hx]⟩
  | ok a =>
    rw [bind_ok hy, bind_ok hx]
    exact hf a bytes offset' hlength hoffset'

theorem CursorFollows.raiseIf (condition : Bool) (message : String) :
    CursorFollows (Computation.raiseIf condition (.thrown message))
      (Computation.raiseIf condition message) := by
  cases condition with
  | false => exact CursorFollows.pure ()
  | true => exact CursorFollows.raise message

end

/-- The check keeps the cursor inside the bytes and the read inside the span. -/
theorem follows_readBytes {size : BitVec 64} {n : Nat} (hsize : size.toNat = n) :
    CursorFollows (PersistentReader.readBytes size) (readBytes n) := by
  intro bytes offset hlength hoffset
  subst hsize
  have htotal : (BitVec.ofNat 64 bytes.length).toNat = bytes.length := by
    rw [BitVec.toNat_ofNat, Nat.mod_eq_of_lt hlength]
  have hleft : (BitVec.ofNat 64 bytes.length - offset).toNat = bytes.length - offset.toNat := by
    rw [BitVec.toNat_sub_of_le (by rw [BitVec.le_def, htotal]; exact hoffset), htotal]
  simp only [PersistentReader.readBytes, readBytes, takeBytes, List.length_drop, BitVec.lt_def,
    hleft]
  by_cases hshort : bytes.length - offset.toNat < size.toNat
  · rw [if_pos hshort, if_pos hshort]
    exact ⟨offset, hoffset, rfl, rfl⟩
  · have hfits : offset.toNat + size.toNat ≤ bytes.length := by omega
    have hsum : (offset + size).toNat = offset.toNat + size.toNat := by
      rw [BitVec.toNat_add, Nat.mod_eq_of_lt (by omega)]
    rw [if_neg hshort, if_neg hshort]
    simp only [PersistentReader.subspan, hfits, if_true]
    exact ⟨offset + size, by omega, rfl, by rw [hsum, List.drop_drop]⟩

theorem follows_readU32 : CursorFollows PersistentReader.readU32 readU32 :=
  (follows_readBytes (by decide)).bind fun _ => CursorFollows.pure _

theorem follows_readU64 : CursorFollows PersistentReader.readU64 readU64 :=
  (follows_readBytes (by decide)).bind fun _ => CursorFollows.pure _

theorem follows_readRelocations : ∀ count,
    CursorFollows (PersistentReader.readRelocations count) (takeMany readU32 count)
  | 0 => CursorFollows.pure []
  | count + 1 => follows_readU32.bind fun _ =>
      (follows_readRelocations count).bind fun _ => CursorFollows.pure _

/-- The words of a slot inside the bytes are read inside the bytes. -/
theorem checkWords_eq {bytes : List Byte} {offset : Nat} (hfits : offset + 16 ≤ bytes.length) :
    ∀ halfwords : List Nat, (∀ k ∈ halfwords, k < 4) →
      PersistentReader.checkWords bytes offset halfwords =
        if halfwords.any fun k => !isPointerWord (readArmWord bytes (offset + k * 4)) k then
          .error (.thrown "persistent translation cache relocation code is invalid")
        else .ok ()
  | [], _ => rfl
  | k :: halfwords, h => by
    have hk := h k (by simp)
    have hword : ofLittleEndian 32 4 ((bytes.drop (offset + k * 4)).take 4) =
        readArmWord bytes (offset + k * 4) :=
      ofLittleEndian_congr fun i hi => by simp [List.getD, hi]
    rw [PersistentReader.checkWords, PersistentReader.subspan, if_pos (by omega)]
    simp only [hword]
    rw [checkWords_eq hfits halfwords fun j hj => h j (List.mem_cons_of_mem _ hj), List.any_cons]
    cases isPointerWord (readArmWord bytes (offset + k * 4)) k <;> simp

theorem relocateBytes_eq (slide : BitVec 64) : ∀ (offsets : List (BitVec 32)) (bytes : List Byte),
    PersistentReader.relocateBytes slide offsets bytes =
      (relocateBytes slide offsets bytes).mapError LoadFault.thrown
  | [], _ => rfl
  | offset :: offsets, bytes => by
    rw [PersistentReader.relocateBytes, relocateBytes, relocateAt]
    by_cases hguard : (offset.toNat % 4 != 0 || decide (bytes.length < offset.toNat) ||
        decide (bytes.length - offset.toNat < 16)) = true
    · rw [if_pos hguard, if_pos hguard]
      rfl
    · rw [if_neg hguard, if_neg hguard]
      simp only [Bool.or_eq_true, bne_iff_ne, decide_eq_true_eq, not_or, not_not, not_lt] at hguard
      rw [checkWords_eq (by omega) (List.range 4) fun k hk => List.mem_range.mp hk]
      by_cases hwords : ((List.range 4).any fun k =>
          !isPointerWord (readArmWord bytes (offset.toNat + k * 4)) k) = true
      · rw [if_pos hwords, if_pos hwords]
        rfl
      · rw [if_neg hwords, if_neg hwords]
        exact relocateBytes_eq slide offsets _

theorem follows_relocateProgram (anchor oldAnchor : BitVec 64) (program : Program) :
    CursorFollows (PersistentReader.relocateProgram anchor oldAnchor program)
      (liftRelocation (relocateProgram anchor oldAnchor program)) := by
  rw [PersistentReader.relocateProgram, relocateBytes_eq, relocateProgram]
  cases relocateBytes (anchor - oldAnchor) program.pointerRelocations program.bytes with
  | error message => exact CursorFollows.raise message
  | ok bytes => exact CursorFollows.pure _

theorem follows_loadRecord (anchor oldAnchor : BitVec 64) :
    CursorFollows (PersistentReader.loadRecord anchor oldAnchor) (loadRecord anchor oldAnchor) := by
  have hsize (size : BitVec 32) : (size.setWidth 64).toNat = size.toNat :=
    BitVec.toNat_setWidth_of_le (by decide)
  refine follows_readU64.bind fun _ => follows_readU64.bind fun _ => ?_
  refine follows_readU32.bind fun _ => follows_readU32.bind fun _ => ?_
  refine follows_readU32.bind fun _ => follows_readU32.bind fun _ => ?_
  refine follows_readU64.bind fun _ => follows_readU64.bind fun _ => ?_
  refine (CursorFollows.raiseIf _ _).bind fun _ => ?_
  refine (follows_readBytes (hsize _)).bind fun _ => (follows_readBytes (hsize _)).bind fun _ => ?_
  refine (follows_readRelocations _).bind fun _ => ?_
  exact (follows_relocateProgram anchor oldAnchor _).bind fun _ => CursorFollows.pure _

theorem follows_loadRecords (anchor oldAnchor : BitVec 64) : ∀ count table,
    CursorFollows (PersistentReader.loadRecords anchor oldAnchor count table)
      (loadRecords anchor oldAnchor count table)
  | 0, table => CursorFollows.pure table
  | count + 1, _ => (follows_loadRecord anchor oldAnchor).bind fun _ =>
      (CursorFollows.raiseIf _ _).bind fun _ => follows_loadRecords anchor oldAnchor count _

theorem follows_finished {table : Table PersistentBlock} :
    CursorFollows (PersistentReader.finished >>= fun done => do
        raiseIf (!done) (.thrown "persistent translation cache has trailing data")
        pure table)
      (requireFinished >>= fun _ => pure table) := by
  intro bytes offset hlength hoffset
  refine ⟨offset, hoffset, ?_⟩
  have htotal : (BitVec.ofNat 64 bytes.length).toNat = bytes.length := by
    rw [BitVec.toNat_ofNat, Nat.mod_eq_of_lt hlength]
  by_cases hend : offset = BitVec.ofNat 64 bytes.length
  · have hrest : bytes.drop offset.toNat = [] := by
      rw [hend, htotal, List.drop_length]
    have hreader : requireFinished (bytes.drop offset.toNat) =
        (.ok (), bytes.drop offset.toNat) := by
      rw [requireFinished, if_pos hrest]
    rw [bind_ok hreader]
    refine ⟨?_, rfl⟩
    have hcursor : PersistentReader.finished ⟨bytes, offset⟩ = (.ok true, ⟨bytes, offset⟩) := by
      simp [PersistentReader.finished, hend]
    rw [bind_ok hcursor]
    rfl
  · have hne : offset.toNat ≠ bytes.length := by
      intro he
      exact hend (BitVec.eq_of_toNat_eq (he.trans htotal.symm))
    have hrest : bytes.drop offset.toNat ≠ [] := by
      intro he
      have := List.drop_eq_nil_iff.mp he
      omega
    have hreader : requireFinished (bytes.drop offset.toNat) =
        (.error "persistent translation cache has trailing data", bytes.drop offset.toNat) := by
      rw [requireFinished, if_neg hrest]
    rw [bind_error hreader]
    refine ⟨?_, rfl⟩
    have hcursor : PersistentReader.finished ⟨bytes, offset⟩ = (.ok false, ⟨bytes, offset⟩) := by
      simp [PersistentReader.finished, hend]
    rw [bind_ok hcursor]
    rfl

theorem follows_loadFile (fingerprint anchor : BitVec 64) :
    CursorFollows (PersistentReader.loadFile fingerprint anchor) (loadFile fingerprint anchor) := by
  refine (follows_readBytes (by decide)).bind fun magic => ?_
  by_cases hmagic : (magic != persistentMagic) = true
  · rw [if_pos hmagic, if_pos hmagic]
    exact CursorFollows.pure ∅
  · rw [if_neg hmagic, if_neg hmagic]
    refine follows_readU32.bind fun version => ?_
    by_cases hversion : (version != persistentVersion) = true
    · rw [if_pos hversion, if_pos hversion]
      exact CursorFollows.pure ∅
    · rw [if_neg hversion, if_neg hversion]
      refine follows_readU64.bind fun build => ?_
      by_cases hbuild : (build != fingerprint) = true
      · rw [if_pos hbuild, if_pos hbuild]
        exact CursorFollows.pure ∅
      · rw [if_neg hbuild, if_neg hbuild]
        refine follows_readU64.bind fun oldAnchor => follows_readU32.bind fun count => ?_
        refine (CursorFollows.raiseIf _ _).bind fun _ => ?_
        exact (follows_loadRecords anchor oldAnchor _ _).bind fun _ => follows_finished

/-- From the start of a file the cursor loads what the reader loads. -/
theorem loadFile_eq (fingerprint anchor : BitVec 64) {bytes : List Byte}
    (hlength : bytes.length ≤ maximumPersistentFileSize) :
    (PersistentReader.loadFile fingerprint anchor ⟨bytes, 0⟩).1 =
      (loadFile fingerprint anchor bytes).1.mapError LoadFault.thrown := by
  have hmax : maximumPersistentFileSize < 2 ^ 64 := by decide
  obtain ⟨offset', -, hload, -⟩ :=
    follows_loadFile fingerprint anchor bytes 0 (by omega) (Nat.zero_le _)
  rw [hload]
  rfl

namespace BlockCache

/-- `loadPersistent` never reads past the bytes, and what it returns is empty or all the
records of the file. -/
theorem loadFrom_post (fingerprint anchor : BitVec 64) (surroundings : Surroundings) :
    (∃ table, loadFrom fingerprint anchor surroundings = .ok table ∧
      (table = ∅ ∨ ∃ bytes, surroundings.file = .ok (some bytes) ∧
        HoldsRecords fingerprint anchor bytes table)) ∨
    ∃ message, loadFrom fingerprint anchor surroundings = .error (.thrown message) := by
  unfold loadFrom
  cases hfile : surroundings.file with
  | error message => exact .inr ⟨message, rfl⟩
  | ok file =>
    cases file with
    | none => exact .inl ⟨∅, rfl, .inl rfl⟩
    | some bytes =>
      by_cases hsize : maximumPersistentFileSize < bytes.length
      · exact .inr ⟨_, if_pos hsize⟩
      · simp only [if_neg hsize, loadFile_eq fingerprint anchor (Nat.not_lt.mp hsize)]
        have hpost := loadFile_post fingerprint anchor bytes
        unfold Post at hpost
        obtain ⟨outcome, rest, hload⟩ : ∃ outcome rest,
            loadFile fingerprint anchor bytes = (outcome, rest) := ⟨_, _, rfl⟩
        rw [hload] at hpost ⊢
        cases outcome with
        | error message => exact .inr ⟨message, rfl⟩
        | ok table =>
          have htable : table = ∅ ∨ ∃ bytes',
              (Except.ok (some bytes) : Except String (Option (List Byte))) = .ok (some bytes') ∧
                HoldsRecords fingerprint anchor bytes' table :=
            hpost.imp id fun h => ⟨bytes, rfl, h⟩
          by_cases hempty : table.entries.isEmpty = true
          · exact .inl ⟨table, by simp [Except.mapError, hempty], htable⟩
          · cases hpublish : surroundings.publishBatch table with
            | error message => exact .inr ⟨message, by simp [Except.mapError, hempty, hpublish]⟩
            | ok _ => exact .inl ⟨table, by simp [Except.mapError, hempty, hpublish], htable⟩

/-- Where nothing goes wrong outside the file, this is the constructor of before. -/
theorem construct_eq_create (fingerprint anchor : BitVec 64) (persistentPath : Bool)
    (file : Option (List Byte)) :
    construct fingerprint anchor persistentPath ⟨.ok file, fun _ => .ok ()⟩ =
      create fingerprint anchor persistentPath file := by
  have hload : loadFrom fingerprint anchor ⟨.ok file, fun _ => .ok ()⟩ =
      (loadPersistent fingerprint anchor file).mapError LoadFault.thrown := by
    cases file with
    | none => rfl
    | some bytes =>
      simp only [loadFrom, loadPersistent]
      by_cases hsize : maximumPersistentFileSize < bytes.length
      · rw [if_pos hsize, if_pos hsize]
        rfl
      · rw [if_neg hsize, if_neg hsize, loadFile_eq fingerprint anchor (Nat.not_lt.mp hsize)]
        cases (loadFile fingerprint anchor bytes).1 with
        | error message => rfl
        | ok table => simp [Except.mapError]
  unfold construct create
  rw [hload]
  cases persistentPath with
  | false => rfl
  | true => cases loadPersistent fingerprint anchor file <;> rfl

/-- Loading tolerates any file, in any surroundings : nothing is read past the bytes, and the
table is empty or has the records of the file and no others, all within the bounds of the
loader. A relocation shifts the pointers of a program and no other bit, and is undone by the
opposite slide. -/
theorem construct_tolerates (fingerprint anchor : BitVec 64) (persistentPath : Bool)
    (surroundings : Surroundings) :
    loadFrom fingerprint anchor surroundings ≠ .error .pastEnd ∧
    ((construct fingerprint anchor persistentPath surroundings).persistentBlocks = ∅ ∨
      ∃ bytes, surroundings.file = .ok (some bytes) ∧ HoldsRecords fingerprint anchor bytes
        (construct fingerprint anchor persistentPath surroundings).persistentBlocks) ∧
    WithinLoader (construct fingerprint anchor persistentPath surroundings).persistentBlocks ∧
    ∀ (oldAnchor : BitVec 64) (program : Program), program.DisjointSlots →
      ((∀ o ∈ program.pointerRelocations, PointerCode program.bytes o.toNat) ∧
        ∃ result, relocateProgram anchor oldAnchor program = .ok result ∧
          Relocates (anchor - oldAnchor) program result ∧
          ∀ anchor' oldAnchor', anchor' - oldAnchor' = -(anchor - oldAnchor) →
            relocateProgram anchor' oldAnchor' result = .ok program) ∨
      ((∃ o ∈ program.pointerRelocations, ¬PointerCode program.bytes o.toNat) ∧
        ∃ message, relocateProgram anchor oldAnchor program = .error message) := by
  have hfault : loadFrom fingerprint anchor surroundings ≠ .error .pastEnd := by
    rcases loadFrom_post fingerprint anchor surroundings with ⟨table, hload, -⟩ | ⟨message, hload⟩
    · simp [hload]
    · simp [hload]
  have htable : (construct fingerprint anchor persistentPath surroundings).persistentBlocks = ∅ ∨
      ∃ bytes, surroundings.file = .ok (some bytes) ∧ HoldsRecords fingerprint anchor bytes
        (construct fingerprint anchor persistentPath surroundings).persistentBlocks := by
    cases persistentPath with
    | false => exact .inl rfl
    | true =>
      simp only [construct, if_true]
      rcases loadFrom_post fingerprint anchor surroundings with
        ⟨table, hload, htable⟩ | ⟨message, hload⟩
      · rw [hload]
        exact htable
      · rw [hload]
        exact .inl rfl
  refine ⟨hfault, htable, ?_, fun oldAnchor program h => relocateProgram_of_disjoint anchor oldAnchor h⟩
  rcases htable with hempty | ⟨bytes, -, hholds⟩
  · rw [hempty]
    intro address block hblock
    rw [AList.lookup_empty] at hblock
    cases hblock
  · exact hholds.withinLoader

end BlockCache

end Rosa
