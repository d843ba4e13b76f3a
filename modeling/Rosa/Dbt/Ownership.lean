import Rosa.Dbt.Relocation

/-!
# Ownership in the block cache

The ordered table owns the blocks, the hash index points into it, and a third table keeps
the instruction limit each block was translated with. `Consistent` says that the three
agree and that every block and every persistent block is one that `translate` can make;
`getOrTranslate_spec` shows that a call keeps it, that it returns a block made from a
prefix of the code it was given, and that a call that throws changes nothing.
-/

namespace Rosa

open Rosa.Computation

/-! ## What translation makes -/

section

variable {I : Type} (tr : Translator I)

theorem Translator.decodeFrom_spec {code : List Byte} {start maximumInstructions : BitVec 64} :
    ∀ {fuel cursor : Nat} {result decoded : List (DecodedInstruction I)},
      result.flatMap DecodedInstruction.bytes = code.take cursor →
      tr.decodeFrom code start maximumInstructions fuel cursor result = .ok decoded →
      decoded.flatMap DecodedInstruction.bytes <+: code ∧
        ∃ last k, decoded.getLast? = some last ∧ last.address.toNat = start.toNat + k ∧
          k < (decoded.flatMap DecodedInstruction.bytes).length
  | 0, _, _, _, _, h => by simp [decodeFrom] at h
  | fuel + 1, cursor, result, decoded, hresult, h => by
    rw [decodeFrom] at h
    split at h
    · next hcursor =>
      split at h
      · cases h
      · next hrip =>
        split at h
        · cases h
        · next i hdecode =>
          obtain ⟨hne, rest, hbytes⟩ := tr.decode_bytes hdecode
          have haddress := tr.decode_address hdecode
          have hcode : code = code.take cursor ++ (i.bytes ++ rest) := by
            rw [hbytes, List.take_append_drop]
          have hlength : (code.take cursor).length = cursor := by
            rw [List.length_take]
            omega
          have htake : (result ++ [i]).flatMap DecodedInstruction.bytes =
              code.take (cursor + i.bytes.length) := by
            rw [List.flatMap_append, hresult, List.flatMap_singleton, List.take_add, ← hbytes,
              List.take_left]
          split at h
          · obtain rfl : result ++ [i] = decoded := by simpa using h
            rw [htake]
            refine ⟨List.take_prefix _ _, i, cursor, by simp, ?_, ?_⟩
            · rw [haddress, BitVec.toNat_add, BitVec.toNat_ofNat]
              have := start.isLt
              omega
            · have := List.length_pos_iff.mpr hne
              have hlen := congrArg List.length hcode
              simp only [List.length_append, hlength] at hlen
              rw [List.length_take]
              omega
          · exact decodeFrom_spec htake h
    · cases h

/-- What a persistent block satisfies, wherever it comes from. -/
structure PersistentBlock.Ok (address : BitVec 64) (block : PersistentBlock) : Prop where
  maximumInstructions : block.maximumInstructions ≠ 0
  source : block.sourceBytes ≠ []
  program : block.program.bytes ≠ []
  last : ∃ k < block.sourceBytes.length,
    block.lastInstructionAddress.toNat = address.toNat + k
  relocations : ∀ o ∈ block.program.pointerRelocations,
    PointerCode block.program.bytes o.toNat

/-- What the cache saves of a block. -/
def TranslatedBlock.record (block : TranslatedBlock) (maximumInstructions : BitVec 64) :
    PersistentBlock where
  sourceBytes := block.sourceBytes
  program := block.program
  maximumInstructions
  hasInternalSelfEdge := block.hasInternalSelfEdge
  callReturnAddress := block.callReturnAddress
  lastInstructionAddress := block.lastInstructionAddress

theorem Translator.translate_spec {code : List Byte} {start maximumInstructions : BitVec 64}
    {block : TranslatedBlock} (h : tr.translate code start maximumInstructions = .ok block) :
    (block.record maximumInstructions).Ok start ∧ block.sourceBytes <+: code ∧
      block.program.pointerRelocations.Nodup := by
  unfold translate at h
  cases hdecoded : tr.decodeBlock code start maximumInstructions with
  | error message => simp [hdecoded, bind, Except.bind] at h
  | ok decoded =>
    cases hemissions : tr.compile decoded with
    | error message => simp [hdecoded, hemissions, bind, Except.bind] at h
    | ok emissions =>
      cases hprogram : assemble emissions [] [] with
      | error message => simp [hdecoded, hemissions, hprogram, bind, Except.bind] at h
      | ok program =>
        simp only [hdecoded, hemissions, hprogram, bind, Except.bind] at h
        unfold decodeBlock at hdecoded
        split at hdecoded
        · cases hdecoded
        · next hmax =>
          obtain ⟨hbegin, last, k, hlast, haddress, hk⟩ := tr.decodeFrom_spec rfl hdecoded
          obtain ⟨hassembled, hne⟩ := assemble_spec emissions ⟨by simp, .nil⟩ hprogram
          rw [hlast] at h
          obtain rfl : _ = block := by simpa using h
          refine ⟨⟨hmax, ?_, hne (.inl (tr.compile_ne_nil hemissions)), ⟨k, hk, haddress⟩,
            hassembled.code⟩, hbegin, hassembled.nodup⟩
          exact List.length_pos_iff.mp (Nat.zero_lt_of_lt hk)

end

namespace BlockCache

theorem sourceMatches_iff {sourceBytes code : List Byte} :
    sourceMatches sourceBytes code = true ↔ sourceBytes <+: code := by
  simp only [sourceMatches, Bool.and_eq_true, decide_eq_true_eq, beq_iff_eq]
  constructor
  · rintro ⟨-, h⟩
    rw [h]
    exact List.take_prefix _ _
  · intro h
    exact ⟨h.length_le, List.prefix_iff_eq_take.mp h⟩

/-! ## The invariant -/

/-- The tables of the cache agree. -/
structure Consistent (c : BlockCache) : Prop where
  owned : ∀ address id, c.blocks.lookup address = some id → ∃ block maximum version,
    c.heap id = some block ∧ c.maximumInstructions address = some maximum ∧
      c.lookup address = some ⟨id, version⟩ ∧ (block.record maximum).Ok address
  indexed : ∀ address entry, c.lookup address = some entry →
    c.blocks.lookup address = some entry.block
  fresh : ∀ id, c.nextId ≤ id → c.heap id = none
  distinct : ∀ a b id, c.blocks.lookup a = some id → c.blocks.lookup b = some id → a = b
  persistent : ∀ address block, c.persistentBlocks.lookup address = some block →
    block.Ok address

/-- A cache that has not translated anything. -/
theorem Consistent.initial {persistentBlocks : Table PersistentBlock} {persistentPath : Bool}
    (h : ∀ address block, persistentBlocks.lookup address = some block → block.Ok address) :
    Consistent { persistentPath, persistentBlocks } where
  owned := by simp
  indexed := by simp
  fresh := by simp
  distinct := by simp
  persistent := h

variable {c : BlockCache} {I : Type}

/-- Putting a new block in place of what is at an address, freeing `gone`. -/
theorem Consistent.install (h : Consistent c) {address : BitVec 64} {block : TranslatedBlock}
    {maximum version : BitVec 64} {gone : Option BlockId}
    (hblock : (block.record maximum).Ok address)
    (hgone : ∀ id, gone = some id → c.blocks.lookup address = some id) {c' : BlockCache}
    (hheap : ∀ id, c'.heap id = if id = c.nextId then some block
      else if gone = some id then none else c.heap id)
    (hnext : c'.nextId = c.nextId + 1) (hblocks : c'.blocks = c.blocks.insert address c.nextId)
    (hlookup : c'.lookup = Function.update c.lookup address (some ⟨c.nextId, version⟩))
    (hmaximum : c'.maximumInstructions =
      Function.update c.maximumInstructions address (some maximum))
    (hpersistent : ∀ a b, c'.persistentBlocks.lookup a = some b → b.Ok a) : Consistent c' := by
  -- a block at another address stays where it is
  have hother {a : BitVec 64} {id : BlockId} (ha : a ≠ address)
      (hid : c.blocks.lookup a = some id) :
      id ≠ c.nextId ∧ gone ≠ some id := by
    obtain ⟨b, -, -, hb, -⟩ := h.owned a id hid
    refine ⟨?_, fun hg => ha (h.distinct a address id hid (hgone id hg))⟩
    rintro rfl
    simp [h.fresh c.nextId (le_refl _)] at hb
  refine ⟨fun a id hid => ?_, fun a e he => ?_, fun id hid => ?_, fun a b id ha hb => ?_,
    hpersistent⟩
  · rw [hblocks] at hid
    rw [hheap, hmaximum, hlookup]
    by_cases ha : a = address
    · subst ha
      obtain rfl : c.nextId = id := by simpa using hid
      exact ⟨block, maximum, version, by simp, by simp, by simp, hblock⟩
    · rw [AList.lookup_insert_ne ha] at hid
      obtain ⟨h1, h2⟩ := hother ha hid
      obtain ⟨b, m, v, hb, hm, hv, hok⟩ := h.owned a id hid
      exact ⟨b, m, v, by simp [h1, h2, hb], by simp [ha, hm], by simp [ha, hv], hok⟩
  · rw [hlookup] at he
    rw [hblocks]
    by_cases ha : a = address
    · subst ha
      rw [Function.update_self] at he
      obtain rfl := Option.some.inj he
      exact AList.lookup_insert _
    · rw [Function.update_of_ne ha] at he
      rw [AList.lookup_insert_ne ha]
      exact h.indexed a e he
  · rw [hnext] at hid
    rw [hheap, if_neg (Nat.ne_of_gt (Nat.lt_of_succ_le hid))]
    split
    · rfl
    · exact h.fresh id (Nat.le_of_succ_le hid)
  · rw [hblocks] at ha hb
    by_cases haa : a = address <;> by_cases hba : b = address
    · rw [haa, hba]
    · subst haa
      rw [AList.lookup_insert_ne hba] at hb
      obtain rfl : c.nextId = id := by simpa using ha
      exact absurd rfl (hother hba hb).1
    · subst hba
      rw [AList.lookup_insert_ne haa] at ha
      obtain rfl : c.nextId = id := by simpa using hb
      exact absurd rfl (hother haa ha).1
    · rw [AList.lookup_insert_ne haa] at ha
      rw [AList.lookup_insert_ne hba] at hb
      exact h.distinct a b id ha hb

/-- What a call of `getOrTranslate` that returns leaves. -/
structure Got (c : BlockCache) (address : BitVec 64) (code : List Byte)
    (executableVersion : BitVec 64) (id : BlockId) (c' : BlockCache) : Prop where
  consistent : Consistent c'
  current : c'.lookup address = some ⟨id, executableVersion⟩
  source : ∃ block, c'.heap id = some block ∧ block.sourceBytes <+: code
  others : ∀ a ≠ address, c'.lookup a = c.lookup a ∧
    ∀ entry, c.lookup a = some entry → c'.heap entry.block = c.heap entry.block
  path : c'.persistentPath = c.persistentPath

theorem Consistent.heap_of_lookup (h : Consistent c) {address : BitVec 64} {entry : LookupEntry}
    (he : c.lookup address = some entry) : ∃ block, c.heap entry.block = some block := by
  obtain ⟨block, -, -, hb, -⟩ := h.owned address entry.block (h.indexed address entry he)
  exact ⟨block, hb⟩

theorem Got.of_install (h : Consistent c) {address executableVersion maximum : BitVec 64}
    {code : List Byte} {block : TranslatedBlock} {c' : BlockCache} (gone : Option BlockId)
    (hok : (block.record maximum).Ok address) (hsource : block.sourceBytes <+: code)
    (hgone : ∀ id, gone = some id → c.blocks.lookup address = some id)
    (hheap : ∀ id, c'.heap id = if id = c.nextId then some block
      else if gone = some id then none else c.heap id)
    (hnext : c'.nextId = c.nextId + 1) (hblocks : c'.blocks = c.blocks.insert address c.nextId)
    (hlookup : c'.lookup = Function.update c.lookup address (some ⟨c.nextId, executableVersion⟩))
    (hmaximum : c'.maximumInstructions =
      Function.update c.maximumInstructions address (some maximum))
    (hpersistent : ∀ a b, c'.persistentBlocks.lookup a = some b → b.Ok a)
    (hpath : c'.persistentPath = c.persistentPath) :
    Got c address code executableVersion c.nextId c' where
  consistent := h.install hok hgone hheap hnext hblocks hlookup hmaximum hpersistent
  current := by rw [hlookup, Function.update_self]
  source := ⟨block, by rw [hheap, if_pos rfl], hsource⟩
  others a ha := by
    refine ⟨by rw [hlookup, Function.update_of_ne ha], fun entry he => ?_⟩
    obtain ⟨b, hb⟩ := h.heap_of_lookup he
    have hid := h.indexed a entry he
    have h1 : entry.block ≠ c.nextId := by
      intro h1
      rw [h1, h.fresh c.nextId (le_refl _)] at hb
      cases hb
    have h2 : gone ≠ some entry.block := fun hg =>
      ha (h.distinct a address entry.block hid (hgone _ hg))
    rw [hheap, if_neg h1, if_neg h2]
  path := hpath

theorem getOrTranslate_spec (h : Consistent c) (tr : Translator I) (address : BitVec 64)
    (code : List Byte) (maximumInstructions executableVersion : BitVec 64) :
    Post (getOrTranslate tr address code maximumInstructions executableVersion) c
      (fun id c' => Got c address code executableVersion id c')
      fun e c' => c' = c ∧ e ≠ .dangling := by
  unfold getOrTranslate
  refine Post.bind (Post.get ?_)
  cases he : c.lookup address with
  | some existing =>
    have hid := h.indexed address existing he
    obtain ⟨block, m, v, hblock, hm, hv, hok⟩ := h.owned address existing.block hid
    simp only [hblock]
    split
    · next hmatch =>
      refine Post.bind (Post.modify (Post.pure ?_))
      refine ⟨⟨fun a id ha => ?_, fun a e hea => ?_, h.fresh, h.distinct, h.persistent⟩,
        Function.update_self _ _ _, ⟨block, hblock, sourceMatches_iff.mp hmatch⟩,
        fun a ha => ⟨Function.update_of_ne ha _ _, fun _ _ => rfl⟩, rfl⟩
      · obtain ⟨b, m', v', hb, hm', hv', hok'⟩ := h.owned a id ha
        by_cases haa : a = address
        · subst haa
          obtain rfl : existing.block = id := by simpa [hid] using ha
          exact ⟨b, m', executableVersion, hb, hm', by simp, hok'⟩
        · exact ⟨b, m', v', hb, hm', by simp [haa, hv'], hok'⟩
      · dsimp only at hea
        by_cases haa : a = address
        · subst haa
          rw [Function.update_self] at hea
          obtain rfl := Option.some.inj hea
          exact hid
        · rw [Function.update_of_ne haa] at hea
          exact h.indexed a e hea
    · cases htr : tr.translate code address maximumInstructions with
      | error message => exact ⟨rfl, by simp⟩
      | ok replacement =>
        obtain ⟨hnew, hsource, -⟩ := tr.translate_spec htr
        refine Post.bind (Post.pure (Post.bind (Post.modify (Post.bind (Post.raiseIf ?_ ?_)))))
        · simp [hid]
        · intro _
          refine Post.bind (Post.modify (Post.pure ?_))
          refine Got.of_install h (some existing.block) hnew hsource ?_ (fun id => ?_) rfl rfl
            rfl rfl h.persistent rfl
          · rintro id ⟨⟩
            exact hid
          · simp only [replaced, Function.update_apply, Option.some.injEq]
            split
            · rfl
            · simp [eq_comm]
  | none =>
    have hnone : c.blocks.lookup address = none := by
      by_contra hsome
      obtain ⟨id, hid⟩ := Option.ne_none_iff_exists'.mp hsome
      obtain ⟨_, _, _, -, -, hv, -⟩ := h.owned address id hid
      simp [he] at hv
    have hadded (block : TranslatedBlock) (s : BlockCache) (hs : s.heap = c.heap)
        (hn : s.nextId = c.nextId) (id : BlockId) :
        (s.added address block maximumInstructions executableVersion).heap id =
          if id = c.nextId then some block
          else if (none : Option BlockId) = some id then none else c.heap id := by
      simp [added, Function.update_apply, hs, hn]
    dsimp only
    split
    · next persistent hpersistent =>
      obtain ⟨hlookup, hmatch⟩ := Option.filter_eq_some_iff.mp hpersistent
      simp only [Bool.and_eq_true, beq_iff_eq] at hmatch
      have hok := h.persistent address persistent hlookup
      refine Post.bind (Post.modify (Post.bind (Post.modify (Post.bind (Post.raiseIf ?_ ?_)))))
      · simp [hnone]
      · intro _
        refine Post.bind (Post.modify (Post.pure ?_))
        have hnew : ((loadCached persistent maximumInstructions).record maximumInstructions).Ok
            address := by
          obtain ⟨h1, h2, h3, h4, h5⟩ := hok
          exact ⟨hmatch.1 ▸ h1, h2, h3, h4, h5⟩
        refine Got.of_install h none hnew (sourceMatches_iff.mp hmatch.2) (by simp)
          (hadded _ _ rfl rfl) rfl rfl rfl rfl (fun a b hb => ?_) rfl
        · have hb' : (c.persistentBlocks.erase address).lookup a = some b := hb
          by_cases ha : a = address
          · subst ha
            simp at hb'
          · rw [AList.lookup_erase_ne ha] at hb'
            exact h.persistent a b hb'
    · cases htr : tr.translate code address maximumInstructions with
      | error message => exact ⟨rfl, by simp⟩
      | ok block =>
        obtain ⟨hnew, hsource, -⟩ := tr.translate_spec htr
        refine Post.bind (Post.pure (Post.bind (Post.modify (Post.bind (Post.raiseIf ?_ ?_)))))
        · simp [hnone]
        · intro _
          refine Post.bind (Post.modify (Post.pure ?_))
          exact Got.of_install h none hnew hsource (by simp) (hadded _ _ rfl rfl) rfl rfl rfl rfl
            h.persistent rfl

end BlockCache

end Rosa
