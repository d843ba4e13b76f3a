import Rosa.Dbt.DispatchRuns

/-!
# The optimized loops of a process

A block that has been executed often enough gets an optimized loop, and the loop stays with it
over later runs. A block from the persistent cache has no IR until then; its IR is made again from
its source bytes. `TierOk` is what the tiers of a block keep, so the loop that a turn enters was
compiled from the IR of the code that is at RIP at that turn (`optimizedLoop_current`).
-/

namespace Rosa

open Rosa.Computation Rosa.AddressSpace Rosa.BlockCache

/-! ## Decoding source bytes -/

namespace Translator

variable {I : Type} (tr : Translator I) {code code' : List Byte}
  {start maximumInstructions : BitVec 64}

theorem decodeBlock_head {decoded : List (DecodedInstruction I)}
    (h : tr.decodeBlock code start maximumInstructions = .ok decoded) :
    ∃ first, decoded.head? = some first ∧ first.address = start := by
  unfold decodeBlock at h
  split at h
  · cases h
  · rw [decodeFrom] at h
    split at h
    · split at h
      · cases h
      · split at h
        · cases h
        · next i hdecode =>
          have haddress : i.address = start := by simpa using tr.decode_address hdecode
          split at h
          · obtain rfl := Except.ok.inj h
            exact ⟨i, rfl, haddress⟩
          · obtain ⟨later, rfl⟩ := tr.prefix_of_decodeFrom h
            exact ⟨i, rfl, haddress⟩
    · cases h

/-- The source bytes of a block, and other code that begins with them, are decoded alike. -/
theorem decodeBlock_local (hlocal : tr.DecodesLocally) {block : TranslatedBlock}
    (h : tr.translate code start maximumInstructions = .ok block)
    (hsource : block.sourceBytes <+: code') :
    tr.decodeBlock code' start maximumInstructions =
      tr.decodeBlock block.sourceBytes start maximumInstructions := by
  unfold translate at h
  cases hdecoded : tr.decodeBlock code start maximumInstructions with
  | error message => simp [hdecoded, bind, Except.bind] at h
  | ok decoded =>
    have hbytes : block.sourceBytes = decoded.flatMap DecodedInstruction.bytes := by
      simp only [hdecoded, bind, Except.bind] at h
      split at h
      · cases h
      · split at h
        · cases h
        · split at h
          · cases h
          · obtain rfl := Except.ok.inj h
            rfl
    have hagain {other : List Byte} (hother : decoded.flatMap DecodedInstruction.bytes <+: other) :
        tr.decodeBlock other start maximumInstructions = .ok decoded := by
      unfold decodeBlock at hdecoded ⊢
      split at hdecoded
      · cases hdecoded
      · next hmax =>
        rw [if_neg hmax]
        exact tr.decodeFrom_local hlocal hdecoded rfl (Nat.zero_le _) hother (by omega)
    rw [hagain (hbytes ▸ hsource), hbytes, hagain List.prefix_rfl]

end Translator

namespace Dispatcher

variable {I E : Type} {engine : Engine I E} {p q : Process}

/-- The IR of a block begins at its first instruction. -/
def LowersAtStart (engine : Engine I E) : Prop :=
  ∀ decoded first ir, decoded.head? = some first → engine.lowerToIr decoded = .ok ir →
    ir.start = first.address

theorem rebuildIr_start (hlowers : LowersAtStart engine) {bytes : List Byte}
    {a maximumInstructions : BitVec 64} {ir : Block}
    (h : engine.rebuildIr bytes a maximumInstructions = .ok ir) : ir.start = a := by
  unfold Engine.rebuildIr at h
  cases hdecoded : engine.translator.decodeBlock bytes a maximumInstructions with
  | error message => simp [hdecoded, bind, Except.bind] at h
  | ok decoded =>
    cases hlowered : engine.lowerToIr decoded with
    | error message => simp [hdecoded, hlowered, bind, Except.bind] at h
    | ok lowered =>
      simp only [hdecoded, hlowered, bind, Except.bind, pure, Except.pure, Except.ok.injEq] at h
      obtain ⟨first, hfirst, haddress⟩ := engine.translator.decodeBlock_head hdecoded
      subst h
      exact (hlowers decoded first lowered hfirst hlowered).trans haddress

/-! ## The tiers of a block -/

/-- What the tiers of a block at `a` keep. -/
structure TierOk (engine : Engine I E) (a : GuestAddress) (block : TranslatedBlock) (tier : Tier) :
    Prop where
  start : tier.ir.start = a
  ir : tier.ir.operations ≠ [] →
    engine.rebuildIr block.sourceBytes a block.maximumInstructions = .ok tier.ir
  warmup : 1024 ≤ tier.optimizationWarmupExecutions
  loop : tier.usesOptimizedLoop = true → canCompileOptimizedLoop tier.ir = true

/-- A loop that is new was earned : by executions of the block in this run, and with enough of the
run left. -/
def Earned (executionCount remainingBlocks : Nat) (before after : Tier) : Prop :=
  after.usesOptimizedLoop = true → before.usesOptimizedLoop = true ∨
    1024 ≤ executionCount ∧ optimizedLoopMinimumRemainingExecutions ≤ remainingBlocks ∧
      (optimizedLoopUsesMemory after.ir = true →
        optimizedMemoryLoopWarmupExecutions ≤ executionCount)

variable {a : GuestAddress} {block : TranslatedBlock} {tier : Tier}

theorem operations_ne_nil_of_canCompile {ir : Block} (h : canCompileOptimizedLoop ir = true) :
    ir.operations ≠ [] := by
  intro hnil
  simp [canCompileOptimizedLoop, analyzeLoop, hnil] at h

theorem tierOk_ofBlock (hlowers : LowersAtStart engine) (a : GuestAddress) (block : TranslatedBlock)
    (isPersistent : Bool) : TierOk engine a block (.ofBlock engine block a isPersistent) := by
  unfold Tier.ofBlock
  split
  · exact ⟨rfl, fun h => absurd rfl h, le_refl _, nofun⟩
  · split
    · next ir hir =>
      refine ⟨rebuildIr_start hlowers hir, fun _ => hir, ?_, nofun⟩
      unfold Tier.translated
      dsimp only
      split <;> decide
    · exact ⟨rfl, fun h => absurd rfl h, le_refl _, nofun⟩

theorem TierOk.compilePromoted (h : TierOk engine a block tier) {before : Tier} {remaining : Nat}
    (huses : tier.usesOptimizedLoop = before.usesOptimizedLoop)
    (hcount : 1024 ≤ block.executionCount)
    (hremaining : optimizedLoopMinimumRemainingExecutions ≤ remaining) :
    Post (compilePromoted engine block.executionCount) tier
      (fun _ t => TierOk engine a block t ∧ Earned block.executionCount remaining before t)
      fun _ t => TierOk engine a block t ∧ Earned block.executionCount remaining before t := by
  have hkept {t : Tier} (hir : t.ir = tier.ir) (hwarm : 1024 ≤ t.optimizationWarmupExecutions)
      (hsame : t.usesOptimizedLoop = tier.usesOptimizedLoop) :
      TierOk engine a block t ∧ Earned block.executionCount remaining before t := by
    refine ⟨⟨hir ▸ h.start, hir ▸ h.ir, hwarm, fun hu => hir ▸ h.loop (hsame ▸ hu)⟩, fun hu => ?_⟩
    exact .inl (by rw [← huses, ← hsame, hu])
  obtain ⟨hir, hwarm, hsame⟩ : tier.raiseWarmup.ir = tier.ir ∧
      1024 ≤ tier.raiseWarmup.optimizationWarmupExecutions ∧
      tier.raiseWarmup.usesOptimizedLoop = tier.usesOptimizedLoop := by
    unfold Tier.raiseWarmup
    split
    · exact ⟨rfl, (by decide : 1024 ≤ optimizedMemoryLoopWarmupExecutions), rfl⟩
    · exact ⟨rfl, h.warmup, rfl⟩
  unfold Rosa.compilePromoted
  refine Post.bind (Post.get ?_)
  split
  · next hcan =>
    refine Post.bind (Post.modify ?_)
    split
    · exact Post.pure (hkept hir hwarm hsame)
    · next hhot =>
      split
      · exact Post.raise (hkept hir hwarm hsame)
      · refine Post.modify ⟨⟨hir ▸ h.start, hir ▸ h.ir, hwarm, fun _ => hir ▸ hcan⟩, fun _ => ?_⟩
        refine .inr ⟨hcount, hremaining, fun hmem => ?_⟩
        by_contra hcold
        exact hhot ⟨hir ▸ hmem, Nat.lt_of_not_le hcold⟩
  · exact Post.modify (hkept rfl h.warmup rfl)

theorem TierOk.ensureIr (hlowers : LowersAtStart engine) (h : TierOk engine a block tier) :
    Post (ensureIr engine block) tier
      (fun _ t => TierOk engine a block t ∧ t.usesOptimizedLoop = tier.usesOptimizedLoop)
      fun _ t => t = tier := by
  unfold Rosa.ensureIr
  refine Post.bind (Post.get ?_)
  split
  · next hnil =>
    split
    · exact Post.raise rfl
    · next ir hir =>
      rw [h.start] at hir
      refine Post.modify ⟨⟨rebuildIr_start hlowers hir, fun _ => hir, h.warmup, fun hu => ?_⟩, rfl⟩
      exact absurd hnil (operations_ne_nil_of_canCompile (h.loop hu))
  · exact Post.pure ⟨h, rfl⟩

theorem TierOk.promoteOptimizedLoopIfHot (hlowers : LowersAtStart engine)
    (h : TierOk engine a block tier) (remaining : Nat) :
    Post (Rosa.promoteOptimizedLoopIfHot engine block remaining) tier
      (fun _ t => TierOk engine a block t ∧ Earned block.executionCount remaining tier t)
      fun _ t => TierOk engine a block t ∧ Earned block.executionCount remaining tier t := by
  unfold Rosa.promoteOptimizedLoopIfHot
  refine Post.bind (Post.get ?_)
  split
  · next hhot =>
    obtain ⟨-, -, hwarm, hremaining⟩ := hhot
    have hcount := h.warmup.trans hwarm
    refine Post.bind (Post.mono (h.ensureIr hlowers) (fun _ t ht => ?_) ?_)
    · exact ht.1.compilePromoted ht.2 hcount hremaining
    · rintro _ _ rfl
      exact ⟨h, .inl⟩
  · exact Post.pure ⟨h, .inl⟩

theorem TierOk.batchLimit (hlowers : LowersAtStart engine) (h : TierOk engine a block tier)
    (remaining : Nat) :
    TierOk engine a block (Rosa.batchLimit engine block remaining tier).2 ∧
      Earned block.executionCount remaining tier
        (Rosa.batchLimit engine block remaining tier).2 := by
  refine Post.final (P := fun t => TierOk engine a block t ∧
    Earned block.executionCount remaining tier t) ?_
  unfold Rosa.batchLimit
  refine Post.bind (Post.get ?_)
  split
  · exact Post.bind (Post.mono (h.promoteOptimizedLoopIfHot hlowers remaining)
      (fun _ _ ht => Post.bind (Post.get (Post.pure ht))) fun _ _ ht => ht)
  · exact Post.pure ⟨h, .inl⟩

/-! ## Processes -/

/-- The tiers of the blocks of a process. -/
structure Tiered (engine : Engine I E) (p : Process) : Prop where
  coherent : Coherent engine p
  tiers : ∀ a id block, p.dispatcher.cache.blocks.lookup a = some id →
    p.dispatcher.cache.heap id = some block →
    block.maximumInstructions = engine.maximumInstructionsPerBlock ∧
      TierOk engine a block (p.dispatcher.tiers id)

/-- The tiers look at the source bytes and the limit of a block. -/
theorem TierOk.uncounted {block' : TranslatedBlock} (h : TierOk engine a block tier)
    (hsame : block'.uncounted = block.uncounted) : TierOk engine a block' tier where
  start := h.start
  ir hne := by
    show engine.rebuildIr block'.uncounted.sourceBytes a block'.uncounted.maximumInstructions = _
    rw [hsame]
    exact h.ir hne
  warmup := h.warmup
  loop := h.loop

theorem maximumInstructions_of_uncounted {block block' : TranslatedBlock}
    (h : block'.uncounted = block.uncounted) :
    block'.maximumInstructions = block.maximumInstructions := by
  show block'.uncounted.maximumInstructions = block.uncounted.maximumInstructions
  rw [h]

/-- The tiers of the other blocks stay, and those of one block are in order. -/
theorem Tiered.keeps (h : Tiered engine p) (hkeeps : Keeps p q)
    (htiers : ∀ a id block, p.dispatcher.cache.blocks.lookup a = some id →
      p.dispatcher.cache.heap id = some block →
      TierOk engine a block (p.dispatcher.tiers id) →
      TierOk engine a block (q.dispatcher.tiers id)) : Tiered engine q where
  coherent := h.coherent.keeps hkeeps
  tiers a id block' hid hb' := by
    rw [hkeeps.blocks.blocks] at hid
    obtain ⟨block, hb, hsame⟩ := hkeeps.blocks.symm.heap_some hb'
    obtain ⟨hmaximum, hok⟩ := h.tiers a id block hid hb
    exact ⟨(maximumInstructions_of_uncounted hsame).symm.trans hmaximum,
      (htiers a id block hid hb hok).uncounted hsame.symm⟩

theorem Tiered.select (hlowers : LowersAtStart engine) (h : Tiered engine p) {id : BlockId}
    (hs : Selected engine p id q) (hf : Fetched engine p id q) : Tiered engine q where
  coherent := hs.coherent
  tiers a other block hother hb := by
    have hconsistent := h.coherent.transparent.consistent
    obtain ⟨found, hfound⟩ := hs.coherent.transparent.consistent.heap_of_lookup hs.current
    replace hfound : q.dispatcher.cache.heap id = some found := hfound
    have htiers : q.dispatcher.tiers = if id = p.dispatcher.cache.nextId then
        Function.update p.dispatcher.tiers id (.ofBlock engine found p.guest.rip
          (q.dispatcher.cache.persistentHitCount != p.dispatcher.cache.persistentHitCount))
        else p.dispatcher.tiers := by
      rw [hf.tiers, newTiers, hfound]
    -- a block that was there before is where it was, with its tiers
    have hold (hheap : p.dispatcher.cache.heap other = some block)
        (hid : p.dispatcher.cache.blocks.lookup a = some other) :
        block.maximumInstructions = engine.maximumInstructionsPerBlock ∧
          TierOk engine a block (q.dispatcher.tiers other) := by
      have hne : other ≠ p.dispatcher.cache.nextId := by
        rintro rfl
        rw [hconsistent.fresh _ (le_refl _)] at hheap
        cases hheap
      have hsame : q.dispatcher.tiers other = p.dispatcher.tiers other := by
        rw [htiers]
        split
        · next hnew => exact Function.update_of_ne (hnew ▸ hne) _ _
        · rfl
      rw [hsame]
      exact h.tiers a other block hid hheap
    by_cases ha : a = p.guest.rip
    · subst ha
      rw [hs.coherent.blocks_lookup, hs.current] at hother
      obtain rfl : id = other := Option.some.inj hother
      rcases hf.renewed.heap id block hb with hheap | ⟨hnew, -, hmaximum⟩
      · rcases hf.renewed.returned with hid | hnew
        · exact hold hheap hid
        · rw [hnew, hconsistent.fresh _ (le_refl _)] at hheap
          cases hheap
      · obtain rfl : block = found := Option.some.inj (hb.symm.trans hfound)
        refine ⟨hmaximum, ?_⟩
        rw [htiers, if_pos hnew, Function.update_self]
        exact tierOk_ofBlock hlowers _ _ _
    · rw [hs.coherent.blocks_lookup, hf.others a ha, ← h.coherent.blocks_lookup] at hother
      obtain ⟨old, -, -, hheap, -⟩ := hconsistent.owned a other hother
      rcases hf.renewed.heap other block hb with hsame | ⟨rfl, -⟩
      · exact hold hsame hother
      · rw [hconsistent.fresh _ (le_refl _)] at hheap
        cases hheap

/-- After a turn its block has the tiers that the batch limit left. -/
theorem executeSelected_tiers (returnSentinel : Option GuestAddress) (maximumBlocks : Nat)
    (id : BlockId) (block : TranslatedBlock) (p : Process) :
    (executeSelected engine returnSentinel maximumBlocks id block p).2.2.dispatcher.tiers =
      Function.update p.dispatcher.tiers id (batchLimit engine block
        (maximumBlocks - p.dispatcher.executedBlocks) (p.dispatcher.tiers id)).2 := by
  have himage : (p.dispatcher.recordImage engine p.guest.rip block).tiers = p.dispatcher.tiers := by
    unfold recordImage
    split
    · split
      · split <;> rfl
      · rfl
    · rfl
  obtain ⟨hexecuted, -⟩ := sameReports_recordImage engine p.guest.rip block p.dispatcher
  rw [← hexecuted, ← himage]
  unfold executeSelected
  dsimp only [Process.update]
  split
  · next message tier htier =>
    rw [htier]
    rfl
  · next limit tier htier =>
    rw [htier]
    split
    · rfl
    · next exit count hresult =>
      dsimp only
      rw [dispatcher_dispatchExit]
      rfl

theorem Tiered.turn (hlowers : LowersAtStart engine) (h : Tiered engine p)
    (refusal : Option String) (returnSentinel : Option GuestAddress) (maximumBlocks : Nat) :
    Tiered engine (turn engine refusal returnSentinel maximumBlocks p).2.2 := by
  unfold Dispatcher.turn
  obtain ⟨id, q, hselect, hs⟩ | ⟨e, q, hselect, hs⟩ := selectBlock_spec h.coherent refusal
  · have hq := h.select hlowers hs (selectBlock_fetched h.coherent hselect)
    obtain ⟨block, hb⟩ := hs.coherent.transparent.consistent.heap_of_lookup hs.current
    replace hb : q.dispatcher.cache.heap id = some block := hb
    rw [hselect]
    dsimp only
    rw [hb]
    refine hq.keeps (keeps_executeSelected engine _ _ _ _ _) fun a other block' hother hb' hok => ?_
    dsimp only
    rw [executeSelected_tiers]
    by_cases hsame : other = id
    · subst hsame
      obtain rfl : block' = block := Option.some.inj (hb'.symm.trans hb)
      rw [Function.update_self]
      exact (hok.batchLimit hlowers _).1
    · rwa [Function.update_of_ne hsame]
  · rw [hselect]
    refine ⟨hs.coherent, fun a id block hid hb => ?_⟩
    have htiers : q.dispatcher.tiers = p.dispatcher.tiers := selectBlock_error_tiers hselect
    rw [hs.cache] at hid hb
    rw [htiers]
    exact h.tiers a id block hid hb

theorem Tiered.afterSteps (hlowers : LowersAtStart engine) : ∀ (steps : List Step) {p : Process},
    Tiered engine p → Tiered engine (afterSteps engine p steps)
  | [], _, h => h
  | .memory calls :: steps, p, h =>
    Tiered.afterSteps hlowers steps
      (h.keeps (keeps_does p calls p.guest) fun _ _ _ _ _ hok => hok)
  | .enter g :: steps, p, h =>
    Tiered.afterSteps hlowers steps (h.keeps (keeps_enter g p) fun _ _ _ _ _ hok => hok)
  | .turn refusal returnSentinel maximumBlocks :: steps, p, h =>
    Tiered.afterSteps hlowers steps (h.turn hlowers refusal returnSentinel maximumBlocks)

/-- `ADD RAX, 1; JNZ` to its own beginning. -/
def incrementLoop (start : GuestAddress) : Block where
  start
  operations :=
    [{ opcode := .readGuestReg, result := some 0, guestRegister := some .rax },
      { opcode := .constant, result := some 1, immediate := 1 },
      { opcode := .add, result := some 2, lhs := some 0, rhs := some 1 },
      { opcode := .writeGuestReg, lhs := some 2, guestRegister := some .rax },
      { opcode := .updateAddFlags, lhs := some 0, rhs := some 1, third := some 2 },
      { opcode := .exitBlock, target := some start, fallthrough := some (start + 1),
        condition := some .notEqual, exitKind := .conditional }]
  valueCount := 3

/-- The dispatcher of a guest whose blocks are that loop. -/
def loopEngine : Engine Unit Unit where
  translator := { nopTranslator with hasInternalSelfEdge := fun _ => true }
  lowerToIr decoded :=
    match decoded with
    | first :: _ => .ok (incrementLoop first.address)
    | [] => .error "cannot lower an empty block"
  llvmBackendAvailable := true
  compileError _ := none
  entry _ _ g _ := { rawExit := 0, faultRip := g.rip, remainingBlockExecutions := 0, guest := g }
  loop _ n g _ := { executionCount := some (BitVec.ofNat 64 n), guest := g }
  syscall _ g _ := { outcome := .ok {}, guest := g }
  sharedCache := none
  maximumInstructionsPerBlock := -1

theorem lowersAtStart_loopEngine : LowersAtStart loopEngine := by
  intro decoded first ir hfirst hir
  cases decoded with
  | nil => cases hfirst
  | cons i decoded =>
    obtain rfl := Option.some.inj hfirst
    obtain rfl := Except.ok.inj hir
    rfl

/-- One turn executes the loop until it is hot. -/
def loopSteps : List Step :=
  [.memory [.mapAnonymous 0x1000 0x1000 { read := true, write := true, execute := true }
      { read := true, write := true, execute := true } "code" none, .writeBytes 0x1fff [0xC3]],
    .enter sledGuest, .turn none none 20000000]

/-- The process after that turn. -/
def loopProcess : Process := afterSteps loopEngine (start 7 0 false none sledGuest) loopSteps

/-- The process in its next turn. -/
def loopSelected : Process := (selectBlock loopEngine none loopProcess).2

/-- The block of the loop. -/
def loopBlock : TranslatedBlock := (loopSelected.dispatcher.cache.heap 0).get rfl

end Dispatcher

end Rosa
