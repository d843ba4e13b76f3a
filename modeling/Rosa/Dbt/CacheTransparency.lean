import Rosa.Dbt.RoundTrip

/-!
# The block cache is transparent

A call of `getOrTranslate` takes one of four paths : the block of the address still matches the
code, it is replaced, a persistent record is taken over, or a block is translated. Whichever it
is, the block that is returned has the source bytes, the last instruction, the self edge and the
return address that a new translation of the code would have. A cached block was translated from
other code; that code and the new one begin with the source bytes of the block, and the decoder
looks at no more than the bytes it consumes.

`Genuine` says this of a record. The records of a file that `savePersistent` wrote are genuine,
also if the process that wrote it had itself started from such a file.
-/

namespace Rosa

open Rosa.Computation

/-! ## Decoding is local -/

namespace Translator

variable {I : Type}

/-- The decoder of an instruction depends only on the bytes that it consumes. -/
def DecodesLocally (tr : Translator I) : Prop :=
  ∀ {code code' : List Byte} {address : BitVec 64} {i : DecodedInstruction I},
    tr.decodeInstruction code address = .ok i → i.bytes <+: code' →
    tr.decodeInstruction code' address = .ok i

/-- The translator of a call during which the host refuses what the code generator needs. -/
def refused (tr : Translator I) (message : String) : Translator I where
  decodeInstruction := tr.decodeInstruction
  compile _ := .error message
  hasInternalSelfEdge := tr.hasInternalSelfEdge
  callReturnAddress := tr.callReturnAddress
  decode_address := tr.decode_address
  decode_bytes := tr.decode_bytes
  compile_ne_nil := nofun

variable (tr : Translator I) {code code' : List Byte} {start maximumInstructions : BitVec 64}

/-- The loop only adds instructions. -/
theorem prefix_of_decodeFrom : ∀ {fuel cursor : Nat} {result decoded : List (DecodedInstruction I)},
    tr.decodeFrom code start maximumInstructions fuel cursor result = .ok decoded →
    result <+: decoded
  | 0, _, _, _, h => by simp [decodeFrom] at h
  | fuel + 1, cursor, result, decoded, h => by
    rw [decodeFrom] at h
    split at h
    · split at h
      · cases h
      · split at h
        · cases h
        · next i hdecode =>
          split at h
          · obtain rfl : result ++ [i] = decoded := by simpa using h
            exact List.prefix_append _ _
          · exact (List.prefix_append _ _).trans (prefix_of_decodeFrom h)
    · cases h

/-- Other code with the same bytes up to the end of the block is decoded alike. -/
theorem decodeFrom_local (hlocal : tr.DecodesLocally) :
    ∀ {fuel fuel' cursor : Nat} {result decoded : List (DecodedInstruction I)},
      tr.decodeFrom code start maximumInstructions fuel cursor result = .ok decoded →
      result.flatMap DecodedInstruction.bytes = code.take cursor → cursor ≤ code.length →
      decoded.flatMap DecodedInstruction.bytes <+: code' → code'.length < cursor + fuel' →
      tr.decodeFrom code' start maximumInstructions fuel' cursor result = .ok decoded
  | 0, _, _, _, _, h, _, _, _, _ => by simp [decodeFrom] at h
  | fuel + 1, fuel', cursor, result, decoded, h, hresult, hle, hbegin, hfuel => by
    rw [decodeFrom] at h
    split at h
    · next hcursor =>
      split at h
      · cases h
      · next hrip =>
        split at h
        · cases h
        · next i hdecode =>
          obtain ⟨hne, rest, hrest⟩ := tr.decode_bytes hdecode
          have htake : (result ++ [i]).flatMap DecodedInstruction.bytes =
              code.take (cursor + i.bytes.length) := by
            rw [List.flatMap_append, hresult, List.flatMap_singleton, List.take_add, ← hrest,
              List.take_left]
          have hpositive := List.length_pos_iff.mpr hne
          have hend : cursor + i.bytes.length ≤ code.length := by
            have := congrArg List.length hrest
            simp only [List.length_append, List.length_drop] at this
            omega
          have hextends : result ++ [i] <+: decoded := by
            split at h
            · obtain rfl : result ++ [i] = decoded := by simpa using h
              exact List.prefix_rfl
            · exact tr.prefix_of_decodeFrom h
          -- The other code has the bytes of the instruction in the same place.
          have hbytes : i.bytes <+: code'.drop cursor := by
            obtain ⟨later, rfl⟩ := hextends
            obtain ⟨tail, hcode'⟩ := hbegin
            have hlength : (result.flatMap DecodedInstruction.bytes).length = cursor := by
              rw [hresult, List.length_take]
              omega
            rw [← hcode', List.flatMap_append, List.flatMap_append, List.append_assoc,
              List.append_assoc, ← hlength, List.drop_left, List.flatMap_singleton]
            exact List.prefix_append _ _
          have hlonger : cursor + i.bytes.length ≤ code'.length := by
            have := hbytes.length_le
            rw [List.length_drop] at this
            omega
          cases fuel' with
          | zero => omega
          | succ fuel' =>
            rw [decodeFrom, if_pos (by omega), if_neg hrip, hlocal hdecode hbytes]
            dsimp only
            split at h
            · next hlast =>
              rw [if_pos hlast]
              exact h
            · next hlast =>
              rw [if_neg hlast]
              exact decodeFrom_local hlocal h htake hend hbegin (by omega)
    · cases h

/-- Other code that begins with the source bytes of a block has the same translation. -/
theorem translate_local (hlocal : tr.DecodesLocally) {block : TranslatedBlock}
    (h : tr.translate code start maximumInstructions = .ok block)
    (hsource : block.sourceBytes <+: code') :
    tr.translate code' start maximumInstructions = .ok block := by
  unfold translate at h ⊢
  cases hdecoded : tr.decodeBlock code start maximumInstructions with
  | error message => simp [hdecoded, bind, Except.bind] at h
  | ok decoded =>
    have hbytes : block.sourceBytes = decoded.flatMap DecodedInstruction.bytes := by
      simp only [hdecoded, bind, Except.bind] at h
      split at h
      · cases h
      · split at h
        · cases h
        · split at h
          · cases h
          · obtain rfl := Except.ok.inj h
            rfl
    have hsame : tr.decodeBlock code' start maximumInstructions = .ok decoded := by
      unfold decodeBlock at hdecoded ⊢
      split at hdecoded
      · cases hdecoded
      · next hmax =>
        rw [if_neg hmax]
        exact tr.decodeFrom_local hlocal hdecoded rfl (Nat.zero_le _) (hbytes ▸ hsource) (by omega)
    rw [hsame]
    rw [hdecoded] at h
    exact h

/-- What a refused call translates, the translator translates. -/
theorem translate_refused (message : String) {block : TranslatedBlock}
    (h : (tr.refused message).translate code start maximumInstructions = .ok block) :
    tr.translate code start maximumInstructions = .ok block := by
  unfold translate at h
  cases hdecoded : (tr.refused message).decodeBlock code start maximumInstructions with
  | error message => simp [hdecoded, bind, Except.bind] at h
  | ok decoded =>
    have hcompile : (tr.refused message).compile decoded = .error message := rfl
    simp [hdecoded, hcompile, bind, Except.bind] at h

end Translator

/-! ## Genuine records -/

/-- The record has the fields of the translation. -/
structure Describes (record : PersistentBlock) (block : TranslatedBlock) : Prop where
  sourceBytes : record.sourceBytes = block.sourceBytes
  lastInstructionAddress : record.lastInstructionAddress = block.lastInstructionAddress
  hasInternalSelfEdge : record.hasInternalSelfEdge = block.hasInternalSelfEdge
  callReturnAddress : record.callReturnAddress = block.callReturnAddress

/-- The record comes from a translation of some code at the address. -/
def Genuine {I : Type} (tr : Translator I) (address : BitVec 64) (record : PersistentBlock) :
    Prop :=
  ∃ code block, tr.translate code address record.maximumInstructions = .ok block ∧
    Describes record block

theorem describes_record (block : TranslatedBlock) (maximumInstructions : BitVec 64) :
    Describes (block.record maximumInstructions) block := ⟨rfl, rfl, rfl, rfl⟩

/-- A genuine record whose source bytes the code begins with describes the translation of the
code. -/
theorem Genuine.translate {I : Type} {tr : Translator I} (hlocal : tr.DecodesLocally)
    {address : BitVec 64} {record : PersistentBlock} (h : Genuine tr address record)
    {code : List Byte} (hsource : record.sourceBytes <+: code) :
    ∃ fresh, tr.translate code address record.maximumInstructions = .ok fresh ∧
      Describes record fresh := by
  obtain ⟨code', block, htranslate, hdescribes⟩ := h
  exact ⟨block, tr.translate_local hlocal htranslate (hdescribes.sourceBytes ▸ hsource), hdescribes⟩

namespace BlockCache

variable {I : Type}

/-- A call of `getOrTranslate`, with the refusal of the host that its translation meets. -/
structure CacheCall where
  address : BitVec 64
  code : List Byte
  maximumInstructions : BitVec 64
  executableVersion : BitVec 64
  refusal : Option String := none

/-- The translator during a call. -/
def CacheCall.translator (call : CacheCall) (tr : Translator I) : Translator I :=
  call.refusal.elim tr tr.refused

/-- The call. -/
def CacheCall.run (call : CacheCall) (tr : Translator I) :
    Computation BlockCache CacheError BlockId :=
  getOrTranslate (call.translator tr) call.address call.code call.maximumInstructions
    call.executableVersion

/-- The cache after a sequence of calls, returned or thrown. -/
def afterCalls (tr : Translator I) (c : BlockCache) (calls : List CacheCall) : BlockCache :=
  calls.foldl (fun c call => (call.run tr c).2) c

/-- The files that `savePersistent` writes : by a process that started without a file, or from
one that was written so. -/
inductive Written (tr : Translator I) (fingerprint : BitVec 64) : List Byte → Prop
  | first {anchor : BitVec 64} {calls : List CacheCall} {order : HashOrder} {file : List Byte}
      (hsave : savePersistent fingerprint anchor order
        (afterCalls tr (create fingerprint anchor true none) calls) = some file) :
      Written tr fingerprint file
  | next {earlier : List Byte} {anchor : BitVec 64} {calls : List CacheCall} {order : HashOrder}
      {file : List Byte} (h : Written tr fingerprint earlier)
      (hsave : savePersistent fingerprint anchor order
        (afterCalls tr (create fingerprint anchor true (some earlier)) calls) = some file) :
      Written tr fingerprint file

/-! ## The invariant -/

/-- The tables of the cache agree, and all records are genuine. -/
structure Transparent (tr : Translator I) (c : BlockCache) : Prop where
  consistent : Consistent c
  limited : ∀ {a}, c.maximumInstructions a ≠ none → c.blocks.lookup a ≠ none
  blocks : ∀ {a id}, c.blocks.lookup a = some id →
    ∃ record, c.recordAt a id = some record ∧ Genuine tr a record
  persistent : ∀ {a record}, c.persistentBlocks.lookup a = some record → Genuine tr a record

variable {tr : Translator I} {c : BlockCache}

theorem Transparent.initial {persistentBlocks : Table PersistentBlock} {persistentPath : Bool}
    (h : Consistent { persistentPath, persistentBlocks })
    (hgenuine : ∀ {a record}, persistentBlocks.lookup a = some record → Genuine tr a record) :
    Transparent tr { persistentPath, persistentBlocks } where
  consistent := h
  limited := by simp
  blocks := by simp
  persistent := hgenuine

/-- What is saved is genuine. -/
theorem Transparent.saved (h : Transparent tr c) {a : BitVec 64} {record : PersistentBlock}
    (hr : c.saved a = some record) : Genuine tr a record := by
  unfold BlockCache.saved at hr
  cases hid : c.blocks.lookup a with
  | none =>
    rw [hid] at hr
    exact h.persistent hr
  | some id =>
    rw [hid] at hr
    obtain ⟨record', hr', hgenuine⟩ := h.blocks hid
    obtain rfl : record' = record := by simpa [hr'] using hr
    exact hgenuine

/-- What a call that returns does to the limits and the records. -/
structure Kept (tr : Translator I) (c : BlockCache) (address maximumInstructions : BitVec 64)
    (id : BlockId) (c' : BlockCache) : Prop where
  limits : ∀ a ≠ address, c'.maximumInstructions a = c.maximumInstructions a
  persistent : ∀ {a record}, c'.persistentBlocks.lookup a = some record →
    c.persistentBlocks.lookup a = some record
  returned : ∃ record, c'.recordAt address id = some record ∧ Genuine tr address record ∧
    (record.maximumInstructions = maximumInstructions ∨
      c.maximumInstructions address = some record.maximumInstructions)

theorem recordAt_eq {a : BitVec 64} {id : BlockId} {block : TranslatedBlock}
    {maximum : BitVec 64} (hb : c.heap id = some block)
    (hm : c.maximumInstructions a = some maximum) :
    c.recordAt a id = some (block.record maximum) := by
  simp only [recordAt, hb, hm]

theorem getOrTranslate_kept (h : Transparent tr c) {tr' : Translator I}
    {address maximumInstructions : BitVec 64} {code : List Byte} (executableVersion : BitVec 64)
    (htr : ∀ {block}, tr'.translate code address maximumInstructions = .ok block →
      tr.translate code address maximumInstructions = .ok block) :
    Post (getOrTranslate tr' address code maximumInstructions executableVersion) c
      (fun id c' => Kept tr c address maximumInstructions id c') fun _ _ => True := by
  have hgenuine {block : TranslatedBlock}
      (hb : tr'.translate code address maximumInstructions = .ok block) :
      Genuine tr address (block.record maximumInstructions) :=
    ⟨code, block, htr hb, describes_record block maximumInstructions⟩
  unfold getOrTranslate
  refine Post.bind (Post.get ?_)
  cases he : c.lookup address with
  | some existing =>
    have hid := h.consistent.indexed address existing he
    obtain ⟨block, maximum, v, hblock, hmaximum, -, -⟩ :=
      h.consistent.owned address existing.block hid
    simp only [hblock]
    split
    · refine Post.bind (Post.modify (Post.pure ⟨fun a ha => rfl, id, ?_⟩))
      obtain ⟨record, hrecord, hgen⟩ := h.blocks hid
      obtain rfl : record = block.record maximum := by
        simpa [recordAt_eq hblock hmaximum] using hrecord.symm
      exact ⟨_, hrecord, hgen, .inr hmaximum⟩
    · cases htranslate : tr'.translate code address maximumInstructions with
      | error message => exact trivial
      | ok replacement =>
        refine Post.bind (Post.pure (Post.bind (Post.modify (Post.bind (Post.raiseIf ?_ ?_)))))
        · exact fun _ => trivial
        · intro _
          refine Post.bind (Post.modify (Post.pure ⟨fun a ha => ?_, id, ?_⟩))
          · exact Function.update_of_ne ha _ _
          · refine ⟨_, recordAt_eq (Function.update_self ..) (Function.update_self ..),
              hgenuine htranslate, .inl rfl⟩
  | none =>
    dsimp only
    split
    · next persistent hpersistent =>
      obtain ⟨hlookup, hmatch⟩ := Option.filter_eq_some_iff.mp hpersistent
      simp only [Bool.and_eq_true, beq_iff_eq] at hmatch
      refine Post.bind (Post.modify (Post.bind (Post.modify (Post.bind (Post.raiseIf ?_ ?_)))))
      · exact fun _ => trivial
      · intro _
        refine Post.bind (Post.modify (Post.pure ⟨fun a ha => ?_, fun {a record} hr => ?_, ?_⟩))
        · exact Function.update_of_ne ha _ _
        · have hr' : (c.persistentBlocks.erase address).lookup a = some record := hr
          by_cases ha : a = address
          · subst ha
            simp at hr'
          · rwa [AList.lookup_erase_ne ha] at hr'
        · refine ⟨_, recordAt_eq (Function.update_self ..) (Function.update_self ..), ?_, .inl rfl⟩
          obtain ⟨code', block, htranslate, hdescribes⟩ := h.persistent hlookup
          rw [hmatch.1] at htranslate
          exact ⟨code', block, htranslate, ⟨hdescribes.1, hdescribes.2, hdescribes.3, hdescribes.4⟩⟩
    · cases htranslate : tr'.translate code address maximumInstructions with
      | error message => exact trivial
      | ok block =>
        refine Post.bind (Post.pure (Post.bind (Post.modify (Post.bind (Post.raiseIf ?_ ?_)))))
        · exact fun _ => trivial
        · intro _
          refine Post.bind (Post.modify (Post.pure ⟨fun a ha => ?_, id, ?_⟩))
          · exact Function.update_of_ne ha _ _
          · exact ⟨_, recordAt_eq (Function.update_self ..) (Function.update_self ..),
              hgenuine htranslate, .inl rfl⟩

/-- A call that returns keeps the invariant. -/
theorem Transparent.after_returned (h : Transparent tr c) {address maximumInstructions : BitVec 64}
    {code : List Byte} {executableVersion : BitVec 64} {id : BlockId} {c' : BlockCache}
    (hgot : Got c address code executableVersion id c')
    (hkept : Kept tr c address maximumInstructions id c') : Transparent tr c' where
  consistent := hgot.consistent
  limited := by
    intro a ha
    by_cases haa : a = address
    · subst haa
      rw [hgot.consistent.indexed a _ hgot.current]
      simp
    · rw [hkept.limits a haa] at ha
      obtain ⟨id', hid'⟩ := Option.ne_none_iff_exists'.mp (h.limited ha)
      obtain ⟨_, _, _, -, -, hv, -⟩ := h.consistent.owned a id' hid'
      rw [← (hgot.others a haa).1] at hv
      rw [hgot.consistent.indexed a _ hv]
      simp
  blocks := by
    intro a id' hid'
    by_cases haa : a = address
    · subst haa
      obtain rfl : id = id' := by simpa [hgot.consistent.indexed a _ hgot.current] using hid'
      obtain ⟨record, hrecord, hgenuine, -⟩ := hkept.returned
      exact ⟨record, hrecord, hgenuine⟩
    · obtain ⟨_, _, v, -, -, hv, -⟩ := hgot.consistent.owned a id' hid'
      rw [(hgot.others a haa).1] at hv
      obtain ⟨record, hrecord, hgenuine⟩ := h.blocks (h.consistent.indexed a _ hv)
      refine ⟨record, ?_, hgenuine⟩
      unfold recordAt at hrecord ⊢
      rw [(hgot.others a haa).2 _ hv, hkept.limits a haa]
      exact hrecord
  persistent := fun hr => h.persistent (hkept.persistent hr)

/-! ## Runs and files -/

/-- A call returns with its block, or throws and changes nothing. -/
theorem CacheCall.run_spec (call : CacheCall) (h : Transparent tr c) :
    Post (call.run tr) c
      (fun id c' => Got c call.address call.code call.executableVersion id c' ∧
        Kept tr c call.address call.maximumInstructions id c')
      fun e c' => c' = c ∧ e ≠ .dangling := by
  have htr {block : TranslatedBlock} (hb : (call.translator tr).translate call.code call.address
      call.maximumInstructions = .ok block) :
      tr.translate call.code call.address call.maximumInstructions = .ok block := by
    unfold CacheCall.translator at hb
    cases hrefusal : call.refusal with
    | none => rwa [hrefusal] at hb
    | some message =>
      rw [hrefusal] at hb
      exact tr.translate_refused message hb
  exact ((getOrTranslate_spec h.consistent (call.translator tr) call.address call.code
    call.maximumInstructions call.executableVersion).and
      (getOrTranslate_kept h call.executableVersion htr)).mono (fun _ _ hq => hq)
      fun _ _ hf => hf.1

theorem Transparent.run (h : Transparent tr c) (call : CacheCall) :
    Transparent tr (call.run tr c).2 := by
  refine Post.final (Post.mono (call.run_spec h) (fun id c' hq => h.after_returned hq.1 hq.2) ?_)
  rintro _ _ ⟨rfl, -⟩
  exact h

theorem Transparent.after : ∀ {calls : List CacheCall} {c : BlockCache},
    Transparent tr c → Transparent tr (afterCalls tr c calls)
  | [], _, h => h
  | call :: calls, c, h => by
    show Transparent tr (afterCalls tr (call.run tr c).2 calls)
    exact Transparent.after (h.run call)

/-- All blocks were made with one limit. -/
def OneLimit (maximumInstructions : BitVec 64) (c : BlockCache) : Prop :=
  ∀ a maximum, c.maximumInstructions a = some maximum → maximum = maximumInstructions

theorem recordAt_maximumInstructions {a : BitVec 64} {id : BlockId} {record : PersistentBlock}
    (h : c.recordAt a id = some record) :
    ∃ block, c.heap id = some block ∧ record = block.record record.maximumInstructions ∧
      c.maximumInstructions a = some record.maximumInstructions := by
  unfold recordAt at h
  cases hb : c.heap id with
  | none => simp [hb] at h
  | some block =>
    cases hm : c.maximumInstructions a with
    | none => simp [hb, hm] at h
    | some maximum =>
      simp only [hb, hm, Option.some.injEq] at h
      subst h
      exact ⟨block, rfl, rfl, rfl⟩

theorem OneLimit.run {maximumInstructions : BitVec 64} (hl : OneLimit maximumInstructions c)
    (h : Transparent tr c) {call : CacheCall}
    (hone : call.maximumInstructions = maximumInstructions) :
    OneLimit maximumInstructions (call.run tr c).2 := by
  refine Post.final (Post.mono (call.run_spec h) (fun id c' hq => ?_) ?_)
  · intro a maximum ha
    by_cases haa : a = call.address
    · subst haa
      obtain ⟨record, hrecord, -, hor⟩ := hq.2.returned
      obtain ⟨_, -, -, hmaximum⟩ := recordAt_maximumInstructions hrecord
      obtain rfl : record.maximumInstructions = maximum := Option.some.inj (hmaximum.symm.trans ha)
      rcases hor with hsame | hold
      · exact hsame.trans hone
      · exact hl _ _ hold
    · rw [hq.2.limits a haa] at ha
      exact hl a maximum ha
  · rintro _ _ ⟨rfl, -⟩
    exact hl

/-- With one limit for all calls the limits of the cache are that one. -/
theorem OneLimit.after {maximumInstructions : BitVec 64} : ∀ {calls : List CacheCall}
    {c : BlockCache}, OneLimit maximumInstructions c → Transparent tr c →
    (∀ call ∈ calls, call.maximumInstructions = maximumInstructions) →
    OneLimit maximumInstructions (afterCalls tr c calls)
  | [], _, hl, _, _ => hl
  | call :: calls, c, hl, h, hone => by
    show OneLimit maximumInstructions (afterCalls tr (call.run tr c).2 calls)
    exact OneLimit.after (hl.run h (hone call List.mem_cons_self)) (h.run call)
      fun other hother => hone other (List.mem_cons_of_mem _ hother)

/-- What a process loads from a file that was saved is genuine. -/
theorem Transparent.loaded (h : Transparent tr c) {fingerprint anchor anchor' : BitVec 64}
    {order : HashOrder} {file : List Byte} {table : Table PersistentBlock}
    (hsave : savePersistent fingerprint anchor order c = some file)
    (hload : loadPersistent fingerprint anchor' (some file) = .ok table) {a : BitVec 64}
    {record : PersistentBlock} (hr : table.lookup a = some record) : Genuine tr a record := by
  obtain ⟨records, rfl, hwritable, -, hsaved⟩ := h.consistent.savePersistent_eq hsave
  simp only [loadPersistent] at hload
  split at hload
  · cases hload
  · next hsize =>
    rcases loadFile_encodeFile anchor' hwritable (not_lt.mp hsize) with
      ⟨-, -, table', htable, hnone, hloads⟩ | ⟨-, message, herror⟩
    · obtain rfl : table' = table := Except.ok.inj (htable.symm.trans hload)
      by_cases ha : a ∈ records.map Sigma.fst
      · obtain ⟨⟨a, saved⟩, hmem, rfl⟩ := List.mem_map.mp ha
        obtain ⟨bytes, -, hlookup⟩ := hloads _ hmem
        obtain rfl : saved.withProgram bytes = record := by
          rw [hr] at hlookup
          exact (Option.some.inj hlookup).symm
        obtain ⟨code, block, htranslate, hdescribes⟩ := h.saved ((hsaved a saved).mp hmem)
        exact ⟨code, block, htranslate,
          ⟨hdescribes.1, hdescribes.2, hdescribes.3, hdescribes.4⟩⟩
      · rw [hnone a ha] at hr
        cases hr
    · rw [herror] at hload
      cases hload

/-- A cache that is made with a file of genuine records. -/
theorem Transparent.created {fingerprint anchor : BitVec 64} {persistentPath : Bool}
    {file : Option (List Byte)}
    (hgenuine : ∀ {table a record}, loadPersistent fingerprint anchor file = .ok table →
      table.lookup a = some record → Genuine tr a record) :
    Transparent tr (create fingerprint anchor persistentPath file) := by
  refine .initial (create_consistent fingerprint anchor persistentPath file) fun {a record} hr => ?_
  split at hr
  · split at hr
    · next table htable => exact hgenuine htable hr
    · simp at hr
  · simp at hr

theorem Written.saved {fingerprint : BitVec 64} {file : List Byte}
    (h : Written tr fingerprint file) : ∃ c anchor order, Transparent tr c ∧
      savePersistent fingerprint anchor order c = some file := by
  induction h with
  | first hsave =>
    refine ⟨_, _, _, (Transparent.created fun hload hr => ?_).after, hsave⟩
    obtain rfl := Except.ok.inj hload
    simp at hr
  | next h hsave ih =>
    obtain ⟨c, anchor, order, hc, hearlier⟩ := ih
    exact ⟨_, _, _, (Transparent.created fun hload hr => hc.loaded hearlier hload hr).after,
      hsave⟩

/-- The cache of a process, with a file that an earlier one wrote or without one. -/
theorem Transparent.start {fingerprint : BitVec 64} {file : Option (List Byte)}
    (hfile : ∀ bytes, file = some bytes → Written tr fingerprint bytes) (anchor : BitVec 64)
    (persistentPath : Bool) : Transparent tr (create fingerprint anchor persistentPath file) := by
  refine .created fun {table a record} hload hr => ?_
  cases file with
  | none =>
    obtain rfl := Except.ok.inj hload
    simp at hr
  | some bytes =>
    obtain ⟨c, anchor', order, hc, hsave⟩ := (hfile bytes rfl).saved
    exact hc.loaded hsave hload hr

/-! ## Transparency -/

/-- The ordered table, the index and the limits have the same keys, and the index points at the
block that the table owns. -/
structure TablesAgree (c : BlockCache) : Prop where
  lookup : ∀ a, (c.lookup a).map LookupEntry.block = c.blocks.lookup a
  limits : ∀ a, (c.maximumInstructions a).isSome = (c.blocks.lookup a).isSome
  owned : ∀ {a id}, c.blocks.lookup a = some id → ∃ block, c.heap id = some block

theorem Transparent.tablesAgree (h : Transparent tr c) : TablesAgree c where
  lookup a := by
    cases hl : c.lookup a with
    | none =>
      cases hb : c.blocks.lookup a with
      | none => rfl
      | some id =>
        obtain ⟨_, _, _, -, -, hv, -⟩ := h.consistent.owned a id hb
        rw [hl] at hv
        cases hv
    | some entry =>
      rw [h.consistent.indexed a entry hl]
      rfl
  limits a := by
    cases hb : c.blocks.lookup a with
    | none =>
      cases hm : c.maximumInstructions a with
      | none => rfl
      | some maximum => exact absurd hb (h.limited (by simp [hm]))
    | some id =>
      obtain ⟨_, maximum, _, -, hm, -⟩ := h.consistent.owned a id hb
      simp [hm]
  owned := by
    intro a id hid
    obtain ⟨block, _, _, hb, -⟩ := h.consistent.owned a id hid
    exact ⟨block, hb⟩

/-- The block under the number is what a new translation of the code would be. -/
def ReturnsFresh (tr : Translator I) (address : BitVec 64) (code : List Byte)
    (maximumInstructions : BitVec 64) (id : BlockId) (c : BlockCache) : Prop :=
  ∃ block fresh, c.heap id = some block ∧ block.sourceBytes <+: code ∧
    tr.translate code address maximumInstructions = .ok fresh ∧
    Describes (block.record maximumInstructions) fresh

/-- The block cache is transparent. After any calls with one limit, from any file that
`savePersistent` wrote, the tables agree; the next call returns a block that has the fields of a
new translation of the code and leaves tables that agree, or it throws and changes nothing. -/
theorem getOrTranslate_transparent (tr : Translator I) (hlocal : tr.DecodesLocally)
    (fingerprint anchor : BitVec 64) (persistentPath : Bool) (file : Option (List Byte))
    (hfile : ∀ bytes, file = some bytes → Written tr fingerprint bytes)
    (maximumInstructions : BitVec 64) (calls : List CacheCall) (call : CacheCall)
    (hone : ∀ other ∈ call :: calls, other.maximumInstructions = maximumInstructions) :
    TablesAgree (afterCalls tr (create fingerprint anchor persistentPath file) calls) ∧
      Post (call.run tr) (afterCalls tr (create fingerprint anchor persistentPath file) calls)
        (fun id c' => TablesAgree c' ∧
          c'.lookup call.address = some ⟨id, call.executableVersion⟩ ∧
          ReturnsFresh tr call.address call.code maximumInstructions id c')
        fun e c' => c' = afterCalls tr (create fingerprint anchor persistentPath file) calls ∧
          e ≠ .dangling := by
  have hstart := Transparent.start hfile anchor persistentPath
  have h : Transparent tr (afterCalls tr (create fingerprint anchor persistentPath file) calls) :=
    hstart.after
  have hlimits : OneLimit maximumInstructions
      (afterCalls tr (create fingerprint anchor persistentPath file) calls) :=
    OneLimit.after (fun a maximum ha => by cases ha) hstart
      fun other hother => hone other (List.mem_cons_of_mem _ hother)
  refine ⟨h.tablesAgree, (call.run_spec h).mono (fun id c' hq => ?_) fun _ _ hf => hf⟩
  obtain ⟨hgot, hkept⟩ := hq
  refine ⟨(h.after_returned hgot hkept).tablesAgree, hgot.current, ?_⟩
  obtain ⟨block, hblock, hsource⟩ := hgot.source
  obtain ⟨record, hrecord, hgenuine, hor⟩ := hkept.returned
  have hmaximum : record.maximumInstructions = maximumInstructions := by
    rcases hor with hsame | hold
    · rw [hsame]
      exact hone call List.mem_cons_self
    · exact hlimits _ _ hold
  obtain ⟨block', hblock', hrecord', -⟩ := recordAt_maximumInstructions hrecord
  obtain rfl : block = block' := by simpa [hblock] using hblock'
  rw [hmaximum] at hrecord'
  subst hrecord'
  obtain ⟨fresh, hfresh, hdescribes⟩ := hgenuine.translate hlocal hsource
  exact ⟨block, fresh, hblock, hsource, hfresh, hdescribes⟩

theorem decodesLocally_nopTranslator : nopTranslator.DecodesLocally := by
  intro code code' address i h hbytes
  cases code with
  | nil => cases h
  | cons byte code =>
    have hi : i.bytes = [byte] := by
      simp only [nopTranslator] at h
      split at h
      · cases h
        rfl
      · split at h
        · cases h
          rfl
        · cases h
    rw [hi] at hbytes
    obtain ⟨rest, rfl⟩ := hbytes
    exact h

/-- The file of a process that ran a sled. -/
theorem written_nopSled : Written nopTranslator 7
    (encodeFile 7 0x100000000 [⟨0x1000, (nopBlock 1 (-1)).record (-1)⟩]) := by
  have hsave := savePersistent_nopCache (show 1 < 2 ^ 16 by decide)
  have hcalls : nopCache 1 = afterCalls nopTranslator (create 7 0x100000000 true none)
      [⟨0x1000, nopSled 1, -1, 1, none⟩] := rfl
  exact .first (hcalls ▸ hsave)

/-- The next process finds the sled, followed by other code than before, and its translation is
refused at another address. -/
theorem getOrTranslate_transparent_nopSled :
    TablesAgree (afterCalls nopTranslator
        (create 7 0x200000000 true
          (some (encodeFile 7 0x100000000 [⟨0x1000, (nopBlock 1 (-1)).record (-1)⟩])))
        [⟨0x2000, nopSled 1, -1, 1, some "out of memory"⟩]) ∧
      Post ((CacheCall.mk 0x1000 (nopSled 1 ++ [0x90]) (-1) 1 none).run nopTranslator)
        (afterCalls nopTranslator
          (create 7 0x200000000 true
            (some (encodeFile 7 0x100000000 [⟨0x1000, (nopBlock 1 (-1)).record (-1)⟩])))
          [⟨0x2000, nopSled 1, -1, 1, some "out of memory"⟩])
        (fun id c' => TablesAgree c' ∧ c'.lookup 0x1000 = some ⟨id, 1⟩ ∧
          ReturnsFresh nopTranslator 0x1000 (nopSled 1 ++ [0x90]) (-1) id c')
        fun e c' => c' = afterCalls nopTranslator
          (create 7 0x200000000 true
            (some (encodeFile 7 0x100000000 [⟨0x1000, (nopBlock 1 (-1)).record (-1)⟩])))
          [⟨0x2000, nopSled 1, -1, 1, some "out of memory"⟩] ∧ e ≠ .dangling :=
  getOrTranslate_transparent nopTranslator decodesLocally_nopTranslator 7 0x200000000 true _
    (by rintro bytes ⟨⟩; exact written_nopSled) (-1) _ _ (by simp)

end BlockCache

end Rosa
