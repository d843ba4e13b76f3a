import Rosa.Guest.Words

/-!
# Words and their bytes

Every width has its own way through `AddressSpace.cpp`, and a range is read mapping by mapping.
Whether a read returns depends on its bytes alone (`CanLoad`), and a read that returns gives the
bytes of the picture that the space shows. So a word is the composition of the bytes that
`readU8` returns, and is refused exactly where one of them is, also in spaces with an accessible
reservation, where a read can leave its backing.
-/

namespace Rosa

namespace AddressSpace

open Rosa.Computation

/-! ## The widths -/

/-- A word of `n` bytes, the low one first. -/
def readUnsigned (w n : Nat) (address : BitVec 64) : Access (BitVec w) := do
  let bytes ← readWord address.toNat n
  pure (ofLittleEndian w n bytes)

/-- `readU8`. -/
def readU8 (address : BitVec 64) : Access (BitVec 8) := readUnsigned 8 1 address

/-- `readU16`. -/
def readU16 (address : BitVec 64) : Access (BitVec 16) := readUnsigned 16 2 address

/-- `readU32`. -/
def readU32 (address : BitVec 64) : Access (BitVec 32) := readUnsigned 32 4 address

/-- `readU64`. -/
def readU64 (address : BitVec 64) : Access (BitVec 64) := readUnsigned 64 8 address

/-- `readBytes`. -/
def readBytes (address : BitVec 64) (size : Nat) : Access (List Byte) :=
  readInto address.toNat size

/-- One `readU8` after the other. -/
def readEach (address : BitVec 64) : Nat → Access (List Byte)
  | 0 => pure []
  | size + 1 => do
    let byte ← readU8 address
    let rest ← readEach (address + 1) size
    pure (byte :: rest)

/-- A read of the byte returns. -/
def CanLoad (s : AddressSpace) (address : Nat) : Prop := s.CanRead address ∧ s.BackedAt address

variable {s s' : AddressSpace} {m : Mapping} {memory : Nat → Byte} {address size : Nat}

/-! ## Which reads return -/

/-- A chunk that was loaded had backing. -/
theorem loadChunk_backed (hr : Orderly s) (hm : m ∈ s.mappings) {offset : Nat} (hpos : 0 < size) :
    Post (loadChunk m offset size) s (fun _ _ => m.HasBacking) fun _ _ => True := by
  unfold loadChunk
  split
  · next file hfile =>
    have hbacking : m.HasBacking := .inl (by simp [hfile])
    exact Post.mono (Post.of_final (P := fun _ => True) trivial) (fun _ _ _ => hbacking)
      fun _ _ _ => trivial
  · refine Post.bind (Post.raiseIf (fun _ => trivial) fun hc => Post.pure ?_)
    simp only [decide_eq_false_iff_not, not_lt] at hc
    rcases (hr.inv.shaped m hm).bytes with hempty | hfull
    · omega
    · exact .inr hfull

/-- A read that returns has read every byte from a mapping with backing. -/
theorem readFrom_backed : ∀ (fuel cursor remaining : Nat) {s : AddressSpace}, Orderly s →
    remaining ≤ fuel → Post (readFrom fuel cursor remaining) s
      (fun _ _ => ∀ k < remaining, s.BackedAt (cursor + k)) fun _ _ => True
  | 0, _, remaining, s, _, hfuel => Post.pure fun k hk => absurd hk (by omega)
  | fuel + 1, cursor, remaining, s, hr, hfuel => by
    rw [readFrom]
    split
    · next hzero => exact Post.pure fun k hk => absurd hk (by omega)
    · refine Post.bind (Post.mono (Post.with_run (find_spec hr.inv Nat.one_pos _)) ?_
        fun _ _ _ => trivial)
      rintro ⟨i, m⟩ s1 ⟨-, hfind⟩
      obtain ⟨hcalm, hf⟩ := found_of_find hr.inv hfind
      dsimp only at hf ⊢
      generalize hchunk : min remaining (m.size - (cursor - m.base)) = chunk
      obtain ⟨hbase, hfits, hle, hpos, hnext⟩ := hf.chunk hr.inv hchunk
      have hr1 := hcalm.orderly hr
      have hm1 : m ∈ s1.mappings := hcalm.touches.mappings_eq ▸ hf.mem
      refine Post.bind (Post.mono (checkReadable_seen m _ _) ?_ fun _ _ h => h)
      rintro _ _ ⟨rfl, -⟩
      refine Post.bind (Post.mono (Post.and (loadChunk_seen hr1 hm1 hfits)
        (loadChunk_backed hr1 hm1 (by omega))) ?_ fun _ _ _ => trivial)
      rintro _ s2 ⟨⟨hcalm2, -⟩, hbacking⟩
      rw [Nat.mod_eq_of_lt hnext]
      refine Post.bind (Post.mono (readFrom_backed fuel (cursor + chunk) (remaining - chunk)
        (hcalm2.orderly hr1) (by omega)) ?_ fun _ _ h => h)
      intro _ _ hrest
      refine Post.pure fun k hk => ?_
      by_cases hlow : k < chunk
      · exact ⟨i, m, ⟨hf.index, by omega, by omega, hf.permitted⟩, hbacking⟩
      · have := hrest (k - chunk) (by omega)
        rw [show cursor + chunk + (k - chunk) = cursor + k by omega] at this
        exact this.of_mappings (hcalm.trans hcalm2).touches.mappings_eq.symm

/-- What a read that returns says of its bytes. -/
theorem readFrom_loads (hr : Orderly s) : Post (readFrom size address size) s
    (fun _ _ => ∀ k < size, s.CanLoad (address + k)) fun _ _ => True := by
  refine Post.mono (Post.and (readFrom_seen size address size hr le_rfl)
    (readFrom_backed size address size hr le_rfl)) ?_ fun _ _ _ => trivial
  rintro _ _ ⟨⟨hno, hreadable⟩, hbacked⟩ k hk
  exact ⟨⟨hreadable k hk, noneFails_iff.mp hno k hk⟩, hbacked k hk⟩

theorem noneFails_of_canLoad (h : ∀ k < size, s.CanLoad (address + k)) : NoneFails s address size :=
  noneFails_iff.mpr fun k hk => (h k hk).1.2

/-- Reading leaves what can be read. -/
theorem Calm.canLoad_iff (h : Calm s s') (hr : Orderly s) :
    s'.CanLoad address ↔ s.CanLoad address := by
  have hmappings := h.touches.mappings_eq
  have hfails : NoneFails s' address 1 ↔ NoneFails s address 1 := by
    refine ⟨fun hno m hm o ho h1 h2 => ?_, fun hno => h.noneFails hr hno⟩
    have := ((h.sameMemory hr).bytes m hm o ho).1
    rw [pageFails_settled, pageFails_settled] at this
    rw [← this, hno m (hmappings ▸ hm) o ho h1 h2]
  constructor
  · rintro ⟨⟨hreadable, hno⟩, hbacked⟩
    exact ⟨⟨hreadable.of_mappings hmappings.symm, hfails.mp hno⟩, hbacked.of_mappings hmappings.symm⟩
  · rintro ⟨⟨hreadable, hno⟩, hbacked⟩
    exact ⟨⟨hreadable.of_mappings hmappings, hfails.mpr hno⟩, hbacked.of_mappings hmappings⟩

theorem readWord_loads (hr : Orderly s) : Post (readWord address size) s
    (fun _ _ => ∀ k < size, s.CanLoad (address + k)) fun _ _ => True := by
  unfold readWord
  refine Post.bind (Post.mono (Post.with_run (find_spec hr.inv Nat.one_pos _)) ?_
    fun _ _ _ => trivial)
  rintro ⟨i, m⟩ s1 ⟨-, hfind⟩
  obtain ⟨hcalm, hf⟩ := found_of_find hr.inv hfind
  have hindex : s.mappings[i]? = some m := hf.index
  have hbase : m.base ≤ address := hf.base
  have hlimit : address + 1 ≤ m.base + m.size := hf.limit
  have hr1 := hcalm.orderly hr
  have hm1 : m ∈ s1.mappings := hcalm.touches.mappings_eq ▸ hf.mem
  dsimp only
  split
  · next hone =>
    have hfits : address - m.base + size ≤ m.size := by omega
    rcases Nat.eq_zero_or_pos size with rfl | hpos
    · exact Post.mono (Post.of_final (P := fun _ => True) trivial)
        (fun _ _ _ k hk => absurd hk (by omega)) fun _ _ _ => trivial
    · refine Post.mono (Post.and (loadChunk_seen hr1 hm1 hfits) (loadChunk_backed hr1 hm1 hpos)) ?_
        fun _ _ _ => trivial
      rintro _ s2 ⟨⟨-, hpages⟩, hbacking⟩ k hk
      have hfound : Found s1 (address + k) 1 { read := true } i m :=
        ⟨hcalm.touches.mappings_eq ▸ hindex, by omega, by omega, hf.permitted⟩
      refine (hcalm.canLoad_iff hr).mp ⟨⟨⟨i, m, hfound, .inl hone.1⟩, ?_⟩, i, m, hfound, hbacking⟩
      intro a ha o ho h1 h2
      -- the byte is in the mapping that was found
      obtain ⟨j, hj⟩ := List.getElem?_of_mem ha
      have hji := hr1.inv.sorted.unique hj hfound.index (by omega) (by omega)
      obtain rfl : a = m := by simpa [hji, hfound.index] using hj.symm
      have := hpages k hk
      rwa [show address - a.base + k = o by omega] at this
  · refine Post.mono (readFrom_loads (hcalm.orderly hr)) ?_ fun _ _ _ => trivial
    exact fun _ _ hall k hk => (hcalm.canLoad_iff hr).mp (hall k hk)

/-! ## What they return -/

theorem readInto_ok_iff (hr : Orderly s) (hd : Depicts memory s.settled) {bytes : List Byte} :
    (readInto address size s).1 = .ok bytes ↔
      (∀ k < size, s.CanLoad (address + k)) ∧ bytes = bytesAt memory address size := by
  have hbytes {read : List Byte} (hok : (readInto address size s).1 = .ok read)
      (hno : NoneFails s address size) : read = bytesAt memory address size := by
    have hsettled := readFrom_settles size address size hr hno
    have hok' : readFrom size address size s.settled =
        (.ok read, (readInto address size s).2.settled) := by
      rw [hsettled]
      exact Prod.ext hok rfl
    exact (Post.of_ok (readFrom_depicts size address size hr.inv.settled hr.lazyInv hd le_rfl)
      hok').2
  constructor
  · intro hok
    have hall := Post.of_ok (readFrom_loads hr)
      (Prod.ext hok rfl : readFrom size address size s = (.ok bytes, (readInto address size s).2))
    exact ⟨hall, hbytes hok (noneFails_of_canLoad hall)⟩
  · rintro ⟨hall, rfl⟩
    have hno := noneFails_of_canLoad hall
    have hreturns := readFrom_returns size address size hr hno (fun k hk => (hall k hk).1.1)
      fun k hk => (hall k hk).2
    unfold Post at hreturns
    rcases hrun : readInto address size s with ⟨_ | read, s'⟩
    · rw [readInto] at hrun
      rw [hrun] at hreturns
      exact hreturns.elim
    · have hread : read = bytesAt memory address size := hbytes (by rw [hrun]) hno
      rw [hread]

theorem readWord_ok_iff (hr : Orderly s) (hd : Depicts memory s.settled) (hpos : 0 < size)
    {bytes : List Byte} : (readWord address size s).1 = .ok bytes ↔
      (∀ k < size, s.CanLoad (address + k)) ∧ bytes = bytesAt memory address size := by
  have hbytes {read : List Byte} (hok : (readWord address size s).1 = .ok read)
      (hno : NoneFails s address size) : read = bytesAt memory address size := by
    have hsettled := readWord_settles hr hno
    have hok' : readWord address size s.settled =
        (.ok read, (readWord address size s).2.settled) := by
      rw [hsettled, hok]
    exact (Post.of_ok (readWord_depicts hr.inv.settled hr.lazyInv hd) hok').2
  constructor
  · intro hok
    have hall := Post.of_ok (readWord_loads hr)
      (Prod.ext hok rfl : readWord address size s = (.ok bytes, (readWord address size s).2))
    exact ⟨hall, hbytes hok (noneFails_of_canLoad hall)⟩
  · rintro ⟨hall, rfl⟩
    have hno := noneFails_of_canLoad hall
    have hreturns := readWord_returns hr hno hpos (fun k hk => (hall k hk).1.1)
      fun k hk => (hall k hk).2
    unfold Post at hreturns
    rcases hrun : readWord address size s with ⟨_ | read, s'⟩
    · rw [hrun] at hreturns
      exact hreturns.elim
    · have hread : read = bytesAt memory address size := hbytes (by rw [hrun]) hno
      rw [hread]

theorem readUnsigned_ok_iff (hr : Orderly s) (hd : Depicts memory s.settled) {w n : Nat}
    (hpos : 0 < n) {base : BitVec 64} {value : BitVec w} :
    (readUnsigned w n base s).1 = .ok value ↔
      (∀ k < n, s.CanLoad (base.toNat + k)) ∧
        value = ofLittleEndian w n (bytesAt memory base.toNat n) := by
  unfold readUnsigned
  rcases hrun : readWord base.toNat n s with ⟨e | bytes, s'⟩
  · rw [bind_error hrun]
    refine ⟨fun h => (by cases h), fun h => ?_⟩
    have := (readWord_ok_iff hr hd hpos).mpr ⟨h.1, rfl⟩
    rw [hrun] at this
    cases this
  · rw [bind_ok hrun]
    obtain ⟨hall, rfl⟩ := (readWord_ok_iff hr hd hpos).mp (by rw [hrun])
    refine ⟨fun h => ⟨hall, (Except.ok.inj h).symm⟩, fun h => ?_⟩
    rw [h.2]
    rfl

theorem readU8_ok_iff (hr : Orderly s) (hd : Depicts memory s.settled) {base : BitVec 64}
    {byte : Byte} : (readU8 base s).1 = .ok byte ↔
      s.CanLoad base.toNat ∧ byte = memory base.toNat := by
  have hone : ofLittleEndian 8 1 (bytesAt memory base.toNat 1) = memory base.toNat := by
    simp [ofLittleEndian, bytesAt, List.range_succ]
  rw [readU8, readUnsigned_ok_iff hr hd Nat.one_pos, hone]
  refine and_congr_left fun _ => ⟨fun h => h 0 Nat.one_pos, fun h k hk => ?_⟩
  obtain rfl : k = 0 := by omega
  exact h

/-- The bytes of a readable mapping that has backing, no callback and no gaps can be read. -/
theorem canLoad_of_plain (hi : Inv s) (hm : m ∈ s.mappings) (hread : m.permissions.read = true)
    (hdense : m.readableBytes.size = 0) (hlazy : m.lazyFileTransform = none) (hb : m.HasBacking)
    (hbase : m.base ≤ address) (hlimit : address < m.base + m.size) : s.CanLoad address := by
  obtain ⟨i, hindex⟩ := List.getElem?_of_mem hm
  have hf : Found s address 1 { read := true } i m :=
    ⟨hindex, hbase, by omega, by simp [Permission.has, hread]⟩
  refine ⟨⟨⟨i, m, hf, .inl hdense⟩, fun a ha o ho h1 h2 => ?_⟩, i, m, hf, hb⟩
  -- no other mapping has the byte
  obtain ⟨j, hj⟩ := List.getElem?_of_mem ha
  have hsame : j = i := hi.sorted.unique hj hindex (by omega) (by omega)
  obtain rfl : a = m := by simpa [hsame, hindex] using hj.symm
  simp [pageFails, hlazy]

/-- Nothing at the end of the address space can be read, where addresses wrap. -/
theorem CanLoad.lt (hi : Inv s) (h : s.CanLoad address) : address + 1 < 2 ^ 64 := by
  obtain ⟨-, i, m, hf, -⟩ := h
  have hlimit : address + 1 ≤ m.base + m.size := hf.limit
  have := (hi.placed m hf.mem).below
  omega

/-- The bytes of a range, with the addresses of the code. -/
theorem canLoad_range_iff (hi : Inv s) {base : BitVec 64} :
    (∀ k < size, s.CanLoad (base + BitVec.ofNat 64 k).toNat) ↔
      ∀ k < size, s.CanLoad (base.toNat + k) := by
  have hsum {k : Nat} (h : base.toNat + k < 2 ^ 64) :
      (base + BitVec.ofNat 64 k).toNat = base.toNat + k := by
    rw [BitVec.toNat_add, BitVec.toNat_ofNat, Nat.add_mod_mod, Nat.mod_eq_of_lt h]
  constructor
  · intro h k hk
    rcases Nat.lt_or_ge (base.toNat + k) (2 ^ 64) with hlt | hge
    · rw [← hsum hlt]
      exact h k hk
    · -- the range has the last byte of the address space
      have hlast := h (2 ^ 64 - 1 - base.toNat) (by omega)
      rw [hsum (by have := base.isLt; omega)] at hlast
      have := hlast.lt hi
      have := base.isLt
      omega
  · intro h k hk
    have hload := h k hk
    rw [hsum (by have := hload.lt hi; omega)]
    exact hload

/-! ## Agreement -/

/-- The bytes that `readU8` returns at the addresses of a range. -/
structure EachByte (s : AddressSpace) (base : BitVec 64) (size : Nat) (bytes : List Byte) :
    Prop where
  length : bytes.length = size
  read : ∀ k (hk : k < bytes.length), (readU8 (base + BitVec.ofNat 64 k) s).1 = .ok bytes[k]

/-- The read returns what is composed of the bytes that `readU8` returns, and throws exactly if
one of these calls throws. -/
structure Agrees {α : Type} (x : Access α) (compose : List Byte → α) (s : AddressSpace)
    (base : BitVec 64) (size : Nat) : Prop where
  returns : ∀ value, (x s).1 = .ok value ↔ ∃ bytes, EachByte s base size bytes ∧ value = compose bytes
  throws : (∃ e, (x s).1 = .error e) ↔
    ∃ k < size, ∃ e, (readU8 (base + BitVec.ofNat 64 k) s).1 = .error e

theorem eachByte_iff (hr : Orderly s) (hd : Depicts memory s.settled) {base : BitVec 64}
    {bytes : List Byte} : EachByte s base size bytes ↔
      (∀ k < size, s.CanLoad (base.toNat + k)) ∧ bytes = bytesAt memory base.toNat size := by
  have hsum (hall : ∀ k < size, s.CanLoad (base.toNat + k)) {k : Nat} (hk : k < size) :
      (base + BitVec.ofNat 64 k).toNat = base.toNat + k := by
    have := (hall k hk).lt hr.inv
    rw [BitVec.toNat_add, BitVec.toNat_ofNat, Nat.add_mod_mod, Nat.mod_eq_of_lt (by omega)]
  constructor
  · rintro ⟨rfl, hread⟩
    have hall := (canLoad_range_iff hr.inv).mp fun k hk => ((readU8_ok_iff hr hd).mp (hread k hk)).1
    refine ⟨hall, List.ext_getElem (by simp [bytesAt]) fun k hk hk' => ?_⟩
    have hbyte := ((readU8_ok_iff hr hd).mp (hread k hk)).2
    rw [hsum hall hk] at hbyte
    simp [bytesAt, hbyte]
  · rintro ⟨hall, rfl⟩
    have hlength : (bytesAt memory base.toNat size).length = size := by simp [bytesAt]
    refine ⟨hlength, fun k hk => (readU8_ok_iff hr hd).mpr ?_⟩
    rw [hlength] at hk
    rw [hsum hall hk]
    exact ⟨hall k hk, by simp [bytesAt]⟩

/-- A read that returns the bytes of the picture exactly if all can be read agrees with
`readU8`. -/
theorem agrees_of_iff {α : Type} {x : Access α} {compose : List Byte → α} {base : BitVec 64}
    (hr : Orderly s) (hd : Depicts memory s.settled)
    (hx : ∀ value, (x s).1 = .ok value ↔ (∀ k < size, s.CanLoad (base.toNat + k)) ∧
      value = compose (bytesAt memory base.toNat size)) : Agrees x compose s base size where
  returns value := by
    rw [hx]
    constructor
    · rintro ⟨hall, rfl⟩
      exact ⟨_, (eachByte_iff hr hd).mpr ⟨hall, rfl⟩, rfl⟩
    · rintro ⟨bytes, hbytes, rfl⟩
      obtain ⟨hall, rfl⟩ := (eachByte_iff hr hd).mp hbytes
      exact ⟨hall, rfl⟩
  throws := by
    constructor
    · rintro ⟨e, he⟩
      by_contra hnone
      have hall : ∀ k < size, s.CanLoad (base + BitVec.ofNat 64 k).toNat := by
        intro k hk
        cases hread : (readU8 (base + BitVec.ofNat 64 k) s).1 with
        | error e => exact absurd ⟨k, hk, e, hread⟩ hnone
        | ok byte => exact ((readU8_ok_iff hr hd).mp hread).1
      have hok := (hx _).mpr ⟨(canLoad_range_iff hr.inv).mp hall, rfl⟩
      rw [he] at hok
      cases hok
    · rintro ⟨k, hk, e, he⟩
      cases hread : (x s).1 with
      | error e => exact ⟨e, rfl⟩
      | ok value =>
        have hall := (canLoad_range_iff hr.inv).mpr ((hx value).mp hread).1
        rw [(readU8_ok_iff hr hd).mpr ⟨hall k hk, rfl⟩] at he
        cases he

/-- A `readU8` that returns leaves the space as it was seen. -/
theorem readU8_calm (hr : Orderly s) {base : BitVec 64} {byte : Byte}
    (h : readU8 base s = (.ok byte, s')) : Calm s s' := by
  obtain ⟨memory, hd⟩ := exists_depicts hr.inv.settled
  have hload := ((readU8_ok_iff hr hd).mp (by rw [h])).1
  have hno : NoneFails s base.toNat 1 := hload.1.2
  have hcalm := readWord_calm hr hno
  rw [readU8, readUnsigned] at h
  rcases hrun : readWord base.toNat 1 s with ⟨e | bytes, s1⟩
  · rw [bind_error hrun] at h
    cases h
  · rw [bind_ok hrun] at h
    obtain rfl : s1 = s' := congrArg Prod.snd h
    rwa [hrun] at hcalm

/-- One byte after the other, each in the space that the ones before it have left. -/
theorem readEach_ok_iff : ∀ (size : Nat) {s : AddressSpace} {base : BitVec 64} {bytes : List Byte},
    Orderly s → Depicts memory s.settled → ((readEach base size s).1 = .ok bytes ↔
      (∀ k < size, s.CanLoad (base.toNat + k)) ∧ bytes = bytesAt memory base.toNat size)
  | 0, s, base, bytes, _, _ => by
    constructor
    · intro h
      exact ⟨fun k hk => absurd hk (by omega), (Except.ok.inj h).symm⟩
    · rintro ⟨-, rfl⟩
      rfl
  | size + 1, s, base, bytes, hr, hd => by
    rw [readEach]
    rcases hfirst : readU8 base s with ⟨e | byte, s1⟩
    · rw [bind_error hfirst]
      refine ⟨fun h => (by cases h), fun h => ?_⟩
      have := (readU8_ok_iff hr hd).mpr ⟨h.1 0 (by omega), rfl⟩
      rw [hfirst] at this
      cases this
    · rw [bind_ok hfirst]
      obtain ⟨hload, rfl⟩ := (readU8_ok_iff hr hd).mp (by rw [hfirst])
      have hcalm := readU8_calm hr hfirst
      have hr1 := hcalm.orderly hr
      have hd1 := (hcalm.sameMemory hr).depicts hd
      have hlt := hload.lt hr.inv
      have hnext : (base + 1).toNat = base.toNat + 1 := by
        rw [BitVec.toNat_add, show (1 : BitVec 64).toNat = 1 from rfl, Nat.mod_eq_of_lt hlt]
      have hrest {rest : List Byte} : (readEach (base + 1) size s1).1 = .ok rest ↔
          (∀ k < size, s.CanLoad (base.toNat + 1 + k)) ∧
            rest = bytesAt memory (base.toNat + 1) size := by
        rw [readEach_ok_iff size hr1 hd1, hnext]
        simp only [hcalm.canLoad_iff hr]
      have hall : (∀ k < size + 1, s.CanLoad (base.toNat + k)) ↔
          ∀ k < size, s.CanLoad (base.toNat + 1 + k) := by
        constructor
        · intro h k hk
          rw [Nat.add_assoc, Nat.add_comm 1]
          exact h (k + 1) (by omega)
        · intro h k hk
          rcases k with _ | k
          · exact hload
          · rw [Nat.add_comm k, ← Nat.add_assoc]
            exact h k (by omega)
      have hbytes : bytesAt memory base.toNat (size + 1) =
          memory base.toNat :: bytesAt memory (base.toNat + 1) size := by
        rw [show size + 1 = 1 + size from Nat.add_comm _ _, ← bytesAt_append]
        simp [bytesAt, List.range_succ]
      rw [hall, hbytes]
      rcases hsecond : readEach (base + 1) size s1 with ⟨e | rest, s2⟩
      · rw [bind_error hsecond]
        refine ⟨fun h => (by cases h), fun h => ?_⟩
        have := hrest.mpr ⟨h.1, rfl⟩
        rw [hsecond] at this
        cases this
      · rw [bind_ok hsecond]
        obtain ⟨hload', rfl⟩ := hrest.mp (by rw [hsecond])
        refine ⟨fun h => ⟨hload', (Except.ok.inj h).symm⟩, fun h => ?_⟩
        rw [h.2]
        rfl

/-- In every space that calls lead to, words are composed of the bytes at their addresses, a read
of any size gives these bytes, and reading them one after the other gives them too. -/
theorem reads_agree {calls : List Call}
    (h : Along (fun s call => call.InstallsLocal s) {} calls) (base : BitVec 64) :
    Agrees (readU16 base) (ofLittleEndian 16 2) (afterAll {} calls) base 2 ∧
    Agrees (readU32 base) (ofLittleEndian 32 4) (afterAll {} calls) base 4 ∧
    Agrees (readU64 base) (ofLittleEndian 64 8) (afterAll {} calls) base 8 ∧
    ∀ size, Agrees (readBytes base size) id (afterAll {} calls) base size ∧
      Agrees (readEach base size) id (afterAll {} calls) base size := by
  have hr := orderly_afterAll h
  obtain ⟨memory, hd⟩ := exists_depicts hr.inv.settled
  have hword (w n : Nat) (hpos : 0 < n) : Agrees (readUnsigned w n base) (ofLittleEndian w n)
      (afterAll {} calls) base n :=
    agrees_of_iff hr hd fun _ => readUnsigned_ok_iff hr hd hpos
  refine ⟨hword 16 2 (by decide), hword 32 4 (by decide), hword 64 8 (by decide), fun size => ?_⟩
  exact ⟨agrees_of_iff hr hd fun _ => readInto_ok_iff hr hd,
    agrees_of_iff hr hd fun _ => readEach_ok_iff size hr hd⟩

/-- A callback that complements its page. -/
def complementPage : PageTransform := fun _ bytes page =>
  (fun i => if i / 0x1000 = page then ~~~bytes i else bytes i, none)

theorem pageLocal_complementPage (size : Nat) :
    PageLocal (cleanedTransform complementPage) 0x1000 size where
  outside bytes page i hi := by simp [cleanedTransform, complementPage, hi]
  throwing bytes page h := by simp [cleanedTransform, complementPage] at h
  depends bytes bytes' page h := by
    refine ⟨rfl, fun i hi hpage => ?_⟩
    simp [cleanedTransform, complementPage, hpage, h i hi hpage]

/-- Two pages of a file whose callback complements them. -/
def complementedPages : List Call :=
  [.mapFileSegment 0x1000 0x2000 { read := true } { read := true }
      { path := "image", size := 0x2000, contents := BitVec.ofNat 8 } 0 "image",
    .installLazyFilePageTransform 0x1000 0x1000 (some complementPage)]

theorem reads_agree_complementedPages :
    (readU16 0x1FFF (afterAll {} complementedPages)).1 = .ok 0xFF00 ∧
      Agrees (readU16 0x1FFF) (ofLittleEndian 16 2) (afterAll {} complementedPages) 0x1FFF 2 := by
  have h : Along (fun s call => call.InstallsLocal s) {} complementedPages := by
    refine ⟨trivial, fun m hm _ => ?_, trivial⟩
    obtain rfl := List.mem_singleton.mp hm
    exact ⟨rfl, pageLocal_complementPage _⟩
  exact ⟨by decide +kernel, (reads_agree h 0x1FFF).1⟩

end AddressSpace

end Rosa
