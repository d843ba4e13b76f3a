import Rosa.Dbt.Dispatcher
import Rosa.Guest.ExecutableVersion

/-!
# The dispatcher executes the code that is there

Between the guest's memory and the block that a turn executes stand two caches : the table of
blocks, and the 256 entries in front of it, both of which go by `executableVersion`. `Coherent` is
what every step of a process keeps, whatever the machine code, the system calls and the calls of
the address space between the runs do : each block in the table has been compared with the code of
some earlier moment that had the version of its entry, and the entries in front agree with the
table. The code at a moment with the same version is the same (`sameCode_of_executableVersion`), so
the block of a turn is what a translation at that turn would be.
-/

namespace Rosa

open Rosa.Computation Rosa.AddressSpace Rosa.BlockCache

/-! ## Moments with the same version -/

namespace AddressSpace

/-- Fewer than `2 ^ 64` counted calls after a moment, an equal version means the same code. -/
theorem sameCode_of_executableVersion {earlier later : List Call}
    (h : Along (fun s call => call.CountsChanges s) {} (earlier ++ later))
    (hlength : later.length < 2 ^ 64)
    (hversion : (afterAll {} (earlier ++ later)).executableVersion =
      (afterAll {} earlier).executableVersion) (address : Nat) :
    code (afterAll {} (earlier ++ later)) address = code (afterAll {} earlier) address := by
  have hearlier := Countable.initial.afterAll h.append.1
  have hlater := Countable.initial.afterAll h
  have hfold : afterAll {} (earlier ++ later) = (afterAll {} earlier).afterAll later :=
    List.foldl_append
  rw [hfold] at hversion hlater ⊢
  obtain ⟨changes, hle, hcount, hsame⟩ := afterAll_counted later hearlier h.append.2
  have hnone : changes = 0 := by
    have heq := congrArg BitVec.toNat (hcount.symm.trans hversion)
    simp only [BitVec.toNat_add, BitVec.toNat_ofNat] at heq
    have := (afterAll {} earlier).executableVersion.isLt
    omega
  exact (hsame hnone).code_eq hearlier.inv hearlier.lazyInv hlater.inv hlater.lazyInv address

theorem Along.concat {condition : AddressSpace → Call → Prop} {call : Call} :
    ∀ {calls : List Call} {s : AddressSpace}, Along condition s calls →
      condition (s.afterAll calls) call → Along condition s (calls ++ [call])
  | [], _, _, hcall => ⟨hcall, trivial⟩
  | _ :: _, _, h, hcall => ⟨h.1, Along.concat h.2 hcall⟩

/-- Fetching code is not counted. -/
theorem executableVersion_executableBytes (history : List Call) (address : BitVec 64) :
    (afterAll {} (history ++ [.executableBytes address])).executableVersion =
      (afterAll {} history).executableVersion := by
  rw [afterAll, List.foldl_append]
  show (ignore (executableBytes address.toNat) (afterAll {} history)).2.executableVersion = _
  refine Post.final (P := fun s => s.executableVersion = (afterAll {} history).executableVersion)
    (Post.bind (Post.mono (executableBytes_spec (inv_afterAll history .initial) address.toNat)
      (fun _ s h => ?_) fun _ s h => h.1.executableVersion))
  exact Post.pure h.1.executableVersion

end AddressSpace

/-! ## The same blocks with other counts -/

/-- A block without its count. -/
def TranslatedBlock.uncounted (block : TranslatedBlock) : TranslatedBlock :=
  { block with executionCount := 0 }

namespace BlockCache

/-- The two caches differ in the counts of their blocks only. -/
structure SameBlocks (c c' : BlockCache) : Prop where
  blocks : c'.blocks = c.blocks
  lookup : c'.lookup = c.lookup
  maximumInstructions : c'.maximumInstructions = c.maximumInstructions
  persistentBlocks : c'.persistentBlocks = c.persistentBlocks
  nextId : c'.nextId = c.nextId
  heap : ∀ id, (c'.heap id).map TranslatedBlock.uncounted = (c.heap id).map .uncounted

variable {c c' c'' : BlockCache}

theorem SameBlocks.refl (c : BlockCache) : SameBlocks c c := ⟨rfl, rfl, rfl, rfl, rfl, fun _ => rfl⟩

theorem SameBlocks.trans (h : SameBlocks c c') (h' : SameBlocks c' c'') : SameBlocks c c'' where
  blocks := h'.blocks.trans h.blocks
  lookup := h'.lookup.trans h.lookup
  maximumInstructions := h'.maximumInstructions.trans h.maximumInstructions
  persistentBlocks := h'.persistentBlocks.trans h.persistentBlocks
  nextId := h'.nextId.trans h.nextId
  heap id := (h'.heap id).trans (h.heap id)

theorem SameBlocks.symm (h : SameBlocks c c') : SameBlocks c' c where
  blocks := h.blocks.symm
  lookup := h.lookup.symm
  maximumInstructions := h.maximumInstructions.symm
  persistentBlocks := h.persistentBlocks.symm
  nextId := h.nextId.symm
  heap id := (h.heap id).symm

theorem SameBlocks.heap_some (h : SameBlocks c c') {id : BlockId} {block : TranslatedBlock}
    (hb : c.heap id = some block) :
    ∃ block', c'.heap id = some block' ∧ block'.uncounted = block.uncounted := by
  have hheap := h.heap id
  rw [hb] at hheap
  exact Option.map_eq_some_iff.mp hheap

theorem SameBlocks.heap_none (h : SameBlocks c c') {id : BlockId} (hb : c.heap id = none) :
    c'.heap id = none := by
  have hheap := h.heap id
  rw [hb] at hheap
  exact Option.map_eq_none_iff.mp hheap

theorem record_of_uncounted {block block' : TranslatedBlock}
    (h : block'.uncounted = block.uncounted) (maximum : BitVec 64) :
    block'.record maximum = block.record maximum := by
  show block'.uncounted.record maximum = block.uncounted.record maximum
  rw [h]

theorem SameBlocks.recordAt (h : SameBlocks c c') (a : BitVec 64) (id : BlockId) :
    c'.recordAt a id = c.recordAt a id := by
  unfold BlockCache.recordAt
  rw [h.maximumInstructions]
  cases hb : c.heap id with
  | none => rw [h.heap_none hb]
  | some block =>
    obtain ⟨block', hb', hsame⟩ := h.heap_some hb
    rw [hb']
    cases c.maximumInstructions a with
    | none => rfl
    | some maximum => exact congrArg some (record_of_uncounted hsame maximum)

theorem Consistent.sameBlocks (hc : Consistent c) (h : SameBlocks c c') : Consistent c' where
  owned a id hid := by
    rw [h.blocks] at hid
    obtain ⟨block, maximum, version, hb, hm, hv, hok⟩ := hc.owned a id hid
    obtain ⟨block', hb', hsame⟩ := h.heap_some hb
    refine ⟨block', maximum, version, hb', h.maximumInstructions ▸ hm, h.lookup ▸ hv, ?_⟩
    rwa [record_of_uncounted hsame]
  indexed a entry he := by
    rw [h.lookup] at he
    rw [h.blocks]
    exact hc.indexed a entry he
  fresh id hid := h.heap_none (hc.fresh id (h.nextId ▸ hid))
  distinct a b id ha hb := by
    rw [h.blocks] at ha hb
    exact hc.distinct a b id ha hb
  persistent a record hr := by
    rw [h.persistentBlocks] at hr
    exact hc.persistent a record hr

theorem Transparent.sameBlocks {I : Type} {tr : Translator I} (ht : Transparent tr c)
    (h : SameBlocks c c') : Transparent tr c' where
  consistent := ht.consistent.sameBlocks h
  limited := by
    intro a ha
    rw [h.maximumInstructions] at ha
    rw [h.blocks]
    exact ht.limited ha
  blocks := by
    intro a id hid
    rw [h.blocks] at hid
    rw [h.recordAt]
    exact ht.blocks hid
  persistent := by
    intro a record hr
    rw [h.persistentBlocks] at hr
    exact ht.persistent hr

theorem sameBlocks_resetExecutionCounts (c : BlockCache) : SameBlocks c c.resetExecutionCounts where
  blocks := rfl
  lookup := rfl
  maximumInstructions := rfl
  persistentBlocks := rfl
  nextId := rfl
  heap id := by
    simp only [resetExecutionCounts, Option.map_map]
    rfl

end BlockCache

namespace Dispatcher

variable {I E : Type} {engine : Engine I E}

theorem sameBlocks_updateBlock (c : BlockCache) (id : BlockId)
    {f : TranslatedBlock → TranslatedBlock}
    (hf : ∀ block, (f block).uncounted = block.uncounted) : SameBlocks c (updateBlock c id f) where
  blocks := rfl
  lookup := rfl
  maximumInstructions := rfl
  persistentBlocks := rfl
  nextId := rfl
  heap other := by
    by_cases h : other = id
    · subst h
      simp only [updateBlock, Function.update_self, Option.map_map]
      exact congrArg (fun g => (c.heap other).map g) (funext hf)
    · simp only [updateBlock, Function.update_of_ne h]

/-! ## The invariant -/

/-- The block of an entry was compared with the code of a moment that had the version of the
entry. -/
def Validated (c : BlockCache) (history : List Call) (a : BitVec 64) (entry : LookupEntry) : Prop :=
  ∃ earlier later bytes block, history = earlier ++ later ∧
    (afterAll {} earlier).executableVersion = entry.executableVersion ∧
    code (afterAll {} earlier) a.toNat = some bytes ∧
    c.heap entry.block = some block ∧ block.sourceBytes <+: bytes

/-- What every step of a process keeps. -/
structure Coherent (engine : Engine I E) (p : Process) : Prop where
  transparent : Transparent engine.translator p.dispatcher.cache
  oneLimit : OneLimit engine.maximumInstructionsPerBlock p.dispatcher.cache
  validated : ∀ a entry, p.dispatcher.cache.lookup a = some entry →
    Validated p.dispatcher.cache p.history a entry
  dispatch : ∀ slot entry, p.dispatcher.dispatchCache slot = some entry →
    slotOf entry.address = slot ∧
      p.dispatcher.cache.lookup entry.address = some ⟨entry.block, entry.executableVersion⟩

/-- The process has done more and counted executions; its blocks are the same. -/
structure Keeps (p q : Process) : Prop where
  blocks : SameBlocks p.dispatcher.cache q.dispatcher.cache
  dispatchCache : q.dispatcher.dispatchCache = p.dispatcher.dispatchCache
  history : p.history <+: q.history

variable {p q r : Process}

theorem Keeps.refl (p : Process) : Keeps p p := ⟨.refl _, rfl, List.prefix_rfl⟩

theorem Keeps.trans (h : Keeps p q) (h' : Keeps q r) : Keeps p r :=
  ⟨h.blocks.trans h'.blocks, h'.dispatchCache.trans h.dispatchCache, h.history.trans h'.history⟩

theorem keeps_does (p : Process) (calls : List Call) (g : GuestState) :
    Keeps p { p.does calls with guest := g } :=
  ⟨.refl _, rfl, List.prefix_append _ _⟩

theorem Validated.keeps (h : Keeps p q) {a : BitVec 64} {entry : LookupEntry}
    (hv : Validated p.dispatcher.cache p.history a entry) :
    Validated q.dispatcher.cache q.history a entry := by
  obtain ⟨earlier, later, bytes, block, hhistory, hversion, hcode, hb, hsource⟩ := hv
  obtain ⟨more, hmore⟩ := h.history
  obtain ⟨block', hb', hsame⟩ := h.blocks.heap_some hb
  refine ⟨earlier, later ++ more, bytes, block', ?_, hversion, hcode, hb', ?_⟩
  · rw [← hmore, hhistory, List.append_assoc]
  · show block'.uncounted.sourceBytes <+: bytes
    rwa [hsame]

theorem Coherent.keeps (hp : Coherent engine p) (h : Keeps p q) : Coherent engine q where
  transparent := hp.transparent.sameBlocks h.blocks
  oneLimit a maximum ha := hp.oneLimit a maximum (h.blocks.maximumInstructions ▸ ha)
  validated a entry he := (hp.validated a entry (h.blocks.lookup ▸ he)).keeps h
  dispatch slot entry he := by
    rw [h.dispatchCache] at he
    rw [h.blocks.lookup]
    exact hp.dispatch slot entry he

/-! ## Selection -/

/-- The entry in front of the table is the one that the table has. -/
theorem Coherent.findBlock_eq (hp : Coherent engine p) (address version : BitVec 64) :
    p.dispatcher.findBlock address version =
      p.dispatcher.cache.findCurrent address version := by
  unfold findBlock
  cases he : p.dispatcher.dispatchCache (slotOf address) with
  | none => rfl
  | some entry =>
    dsimp only
    split
    · next h =>
      obtain ⟨rfl, rfl⟩ := h
      rw [findCurrent, (hp.dispatch _ entry he).2]
      simp
    · rfl

theorem findCurrent_eq_some {c : BlockCache} {address version : BitVec 64} {id : BlockId} :
    c.findCurrent address version = some id ↔ c.lookup address = some ⟨id, version⟩ := by
  unfold findCurrent
  cases c.lookup address with
  | none => simp
  | some entry =>
    obtain ⟨block, version'⟩ := entry
    simp only [Option.bind_some, Option.some.injEq, LookupEntry.mk.injEq]
    by_cases h : version' = version
    · simp [h]
    · simp [h]

/-- Remembering what the table has. -/
theorem Coherent.remember (hp : Coherent engine p) {address version : BitVec 64} {id : BlockId}
    (h : p.dispatcher.cache.lookup address = some ⟨id, version⟩) :
    Coherent engine (p.update fun d => d.remember address version id) where
  transparent := hp.transparent
  oneLimit := hp.oneLimit
  validated := hp.validated
  dispatch slot entry he := by
    replace he : Function.update p.dispatcher.dispatchCache (slotOf address)
        (some ⟨address, version, id⟩) slot = some entry := he
    by_cases hslot : slot = slotOf address
    · subst hslot
      rw [Function.update_self] at he
      obtain rfl := Option.some.inj he
      exact ⟨rfl, h⟩
    · rw [Function.update_of_ne hslot] at he
      exact hp.dispatch slot entry he

/-- The process after a call of `getOrTranslate` that returned, before the block is remembered. -/
theorem Coherent.got (hp : Coherent engine p) {address : BitVec 64} {bytes : List Byte}
    {cache : BlockCache} {id : BlockId}
    (hcode : code p.space address.toNat = some bytes)
    (hgot : Got p.dispatcher.cache address bytes p.space.executableVersion id cache)
    (ht : Transparent engine.translator cache)
    (hl : OneLimit engine.maximumInstructionsPerBlock cache) {q : Process}
    (hq : q.dispatcher.cache = cache)
    (hfront : q.dispatcher.dispatchCache = Function.update p.dispatcher.dispatchCache
      (slotOf address) (some ⟨address, p.space.executableVersion, id⟩))
    (hhistory : p.history <+: q.history) : Coherent engine q := by
  refine ⟨hq ▸ ht, hq ▸ hl, fun a entry he => ?_, fun slot entry he => ?_⟩
  · rw [hq] at he ⊢
    obtain ⟨more, hmore⟩ := hhistory
    by_cases ha : a = address
    · -- the block of the address has just been compared with the code
      subst ha
      rw [hgot.current] at he
      obtain rfl := Option.some.inj he
      obtain ⟨block, hb, hsource⟩ := hgot.source
      exact ⟨p.history, more, bytes, block, hmore.symm, rfl, hcode, hb, hsource⟩
    · obtain ⟨hsame, hheap⟩ := hgot.others a ha
      rw [hsame] at he
      obtain ⟨earlier, later, bytes', block, hsplit, hversion, hbytes, hb, hsource⟩ :=
        hp.validated a entry he
      refine ⟨earlier, later ++ more, bytes', block, ?_, hversion, hbytes, ?_, hsource⟩
      · rw [← hmore, hsplit, List.append_assoc]
      · rw [hheap entry he]
        exact hb
  · rw [hfront] at he
    rw [hq]
    by_cases hslot : slot = slotOf address
    · subst hslot
      rw [Function.update_self] at he
      obtain rfl := Option.some.inj he
      exact ⟨rfl, hgot.current⟩
    · rw [Function.update_of_ne hslot] at he
      obtain ⟨hentry, hlookup⟩ := hp.dispatch slot entry he
      refine ⟨hentry, ?_⟩
      have hne : entry.address ≠ address := by
        rintro rfl
        exact hslot hentry.symm
      rw [(hgot.others _ hne).1]
      exact hlookup

/-- What a selection that succeeds leaves. -/
structure Selected (engine : Engine I E) (p : Process) (id : BlockId) (q : Process) : Prop where
  coherent : Coherent engine q
  current : q.dispatcher.cache.lookup p.guest.rip = some ⟨id, p.space.executableVersion⟩
  guest : q.guest = p.guest
  version : q.space.executableVersion = p.space.executableVersion
  history : q.history = p.history ∨ q.history = p.history ++ [.executableBytes p.guest.rip]

theorem Selected.history_prefix {id : BlockId} (h : Selected engine p id q) :
    p.history <+: q.history := by
  rcases h.history with hsame | hmore
  · exact hsame ▸ List.prefix_rfl
  · exact hmore ▸ List.prefix_append _ _

/-- What a selection that throws leaves. -/
structure Unselected (engine : Engine I E) (p : Process) (e : RunError E) (q : Process) : Prop where
  coherent : Coherent engine q
  alive : e ≠ .cache .dangling
  cache : q.dispatcher.cache = p.dispatcher.cache

theorem selectBlock_spec (hp : Coherent engine p) (refusal : Option String) :
    (∃ id q, selectBlock engine refusal p = (.ok id, q) ∧ Selected engine p id q) ∨
      ∃ e q, selectBlock engine refusal p = (.error e, q) ∧ Unselected engine p e q := by
  unfold selectBlock
  dsimp only
  rw [hp.findBlock_eq]
  cases hfind : p.dispatcher.cache.findCurrent p.guest.rip p.space.executableVersion with
  | some id =>
    have hlookup := findCurrent_eq_some.mp hfind
    exact .inl ⟨id, _, rfl, hp.remember hlookup, hlookup, rfl, rfl, .inl rfl⟩
  | none =>
    dsimp only
    have hfetched := hp.keeps (keeps_does p [.executableBytes p.guest.rip] p.guest)
    cases hbytes : (executableBytes p.guest.rip.toNat p.space).1 with
    | error e => exact .inr ⟨_, _, rfl, hfetched, by simp, rfl⟩
    | ok bytes =>
      dsimp only
      have hcode : code p.space p.guest.rip.toNat = some bytes := by
        rw [code, hbytes]
        rfl
      have hspec := (CacheCall.mk p.guest.rip bytes engine.maximumInstructionsPerBlock
        p.space.executableVersion refusal).run_spec hp.transparent
      have hlimit : OneLimit engine.maximumInstructionsPerBlock ((CacheCall.mk p.guest.rip bytes
          engine.maximumInstructionsPerBlock p.space.executableVersion refusal).run
          engine.translator p.dispatcher.cache).2 := hp.oneLimit.run hp.transparent rfl
      rcases hrun : (CacheCall.mk p.guest.rip bytes engine.maximumInstructionsPerBlock
        p.space.executableVersion refusal).run engine.translator p.dispatcher.cache with
        ⟨e | id, cache⟩
      · obtain ⟨rfl, halive⟩ := Post.of_error hspec hrun
        refine .inr ⟨_, _, rfl, hfetched, ?_, rfl⟩
        rintro ⟨⟩
        exact halive rfl
      · obtain ⟨hgot, hkept⟩ := Post.of_ok hspec hrun
        rw [hrun] at hlimit
        refine .inl ⟨id, _, rfl, ?_, hgot.current, rfl, ?_, .inr rfl⟩
        · exact hp.got hcode hgot (hp.transparent.after_returned hgot hkept) hlimit rfl rfl
            (List.prefix_append _ _)
        · exact executableVersion_executableBytes p.history p.guest.rip

/-! ## The rest of a turn -/

theorem keeps_recordImage (engine : Engine I E) (address : GuestAddress) (block : TranslatedBlock)
    (p : Process) :
    Keeps p (p.update fun d => d.recordImage engine address block) := by
  have h : (p.dispatcher.recordImage engine address block).cache = p.dispatcher.cache ∧
      (p.dispatcher.recordImage engine address block).dispatchCache =
        p.dispatcher.dispatchCache := by
    unfold recordImage
    split
    · split
      · split <;> exact ⟨rfl, rfl⟩
      · exact ⟨rfl, rfl⟩
    · exact ⟨rfl, rfl⟩
  refine ⟨?_, h.2, List.prefix_rfl⟩
  show SameBlocks p.dispatcher.cache (p.dispatcher.recordImage engine address block).cache
  rw [h.1]
  exact .refl _

theorem keeps_dispatchExit (returnSentinel : Option GuestAddress) (address : GuestAddress)
    (block : TranslatedBlock) (exit : BlockExit) (p : Process) :
    Keeps p (dispatchExit engine returnSentinel address block exit p).2 := by
  cases exit with
  | «continue» => exact .refl p
  | call => exact keeps_does p _ _
  | «return» => exact keeps_does p _ _
  | syscall => exact keeps_does p _ _
  | memoryFault => exact .refl p
  | executionFault => exact .refl p

theorem keeps_executeSelected (engine : Engine I E) (returnSentinel : Option GuestAddress)
    (maximumBlocks : Nat) (id : BlockId) (block : TranslatedBlock) (p : Process) :
    Keeps p (executeSelected engine returnSentinel maximumBlocks id block p).2.2 := by
  have himage := keeps_recordImage engine p.guest.rip block p
  unfold executeSelected
  dsimp only
  split
  · exact himage.trans ⟨.refl _, rfl, List.prefix_rfl⟩
  · next limit tier htier =>
    split
    · exact himage.trans ⟨.refl _, rfl, List.prefix_append _ _⟩
    · next exit count hresult =>
      refine (himage.trans ?_).trans (keeps_dispatchExit _ _ _ _ _)
      exact ⟨sameBlocks_updateBlock _ _ fun _ => rfl, rfl, List.prefix_append _ _⟩

theorem dispatchExit_failed {returnSentinel : Option GuestAddress} {address : GuestAddress}
    {block : TranslatedBlock} {exit : BlockExit} {e : RunError E}
    (h : (dispatchExit engine returnSentinel address block exit p).1 = .failed e) :
    e ≠ .cache .dangling := by
  rintro rfl
  cases exit with
  | «continue» => cases h
  | call =>
    dsimp only [dispatchExit] at h
    split at h <;> cases h
  | «return» =>
    dsimp only [dispatchExit] at h
    split at h <;> cases h
  | syscall =>
    dsimp only [dispatchExit] at h
    split at h
    · split at h <;> cases h
    · cases h
  | memoryFault => cases h
  | executionFault => cases h

theorem executeSelected_failed {returnSentinel : Option GuestAddress} {maximumBlocks : Nat}
    {id : BlockId} {block : TranslatedBlock} {e : RunError E}
    (h : (executeSelected engine returnSentinel maximumBlocks id block p).1 = .failed e) :
    e ≠ .cache .dangling := by
  rintro rfl
  unfold executeSelected at h
  dsimp only at h
  split at h
  · cases h
  · split at h
    · cases h
    · exact dispatchExit_failed h rfl

/-- A turn keeps the invariant and meets no block that was freed. -/
theorem Coherent.turn (hp : Coherent engine p) (refusal : Option String)
    (returnSentinel : Option GuestAddress) (maximumBlocks : Nat) :
    Coherent engine (turn engine refusal returnSentinel maximumBlocks p).2.2 ∧
      (Dispatcher.turn engine refusal returnSentinel maximumBlocks p).1 ≠
        .failed (.cache .dangling) := by
  unfold Dispatcher.turn
  obtain ⟨id, q, hselect, hs⟩ | ⟨e, q, hselect, hs⟩ := selectBlock_spec hp refusal
  · obtain ⟨block, hb⟩ := hs.coherent.transparent.consistent.heap_of_lookup hs.current
    replace hb : q.dispatcher.cache.heap id = some block := hb
    rw [hselect]
    dsimp only
    rw [hb]
    exact ⟨hs.coherent.keeps (keeps_executeSelected _ _ _ _ _ _),
      fun h => executeSelected_failed h rfl⟩
  · rw [hselect]
    refine ⟨hs.coherent, ?_⟩
    rintro ⟨⟩
    exact hs.alive rfl

/-! ## Every sequence of steps -/

/-- What happens to a process : calls of its address space between the runs, the beginning of a
run, a turn of its loop. -/
inductive Step
  | memory (calls : List Call)
  | enter (g : GuestState)
  | turn (refusal : Option String) (returnSentinel : Option GuestAddress) (maximumBlocks : Nat)

/-- The process after a step. -/
def Step.apply (engine : Engine I E) (p : Process) : Step → Process
  | memory calls => p.does calls
  | enter g => Dispatcher.enter g p
  | turn refusal returnSentinel maximumBlocks =>
    (Dispatcher.turn engine refusal returnSentinel maximumBlocks p).2.2

/-- The process after a sequence of steps. -/
def afterSteps (engine : Engine I E) (p : Process) (steps : List Step) : Process :=
  steps.foldl (Step.apply engine) p

theorem keeps_enter (g : GuestState) (p : Process) : Keeps p (enter g p) :=
  ⟨sameBlocks_resetExecutionCounts _, rfl, List.prefix_rfl⟩

theorem Coherent.step (hp : Coherent engine p) (step : Step) :
    Coherent engine (step.apply engine p) := by
  cases step with
  | memory calls => exact hp.keeps (keeps_does p calls p.guest)
  | enter g => exact hp.keeps (keeps_enter g p)
  | turn refusal returnSentinel maximumBlocks =>
    exact (hp.turn refusal returnSentinel maximumBlocks).1

theorem Coherent.afterSteps : ∀ (steps : List Step) {p : Process}, Coherent engine p →
    Coherent engine (afterSteps engine p steps)
  | [], _, hp => hp
  | step :: steps, p, hp =>
    show Coherent engine (Dispatcher.afterSteps engine (step.apply engine p) steps) from
      Coherent.afterSteps steps (hp.step step)

/-- A new process, with the cache file of an earlier one or without. -/
def start (fingerprint anchor : BitVec 64) (persistentPath : Bool) (file : Option (List Byte))
    (g : GuestState) : Process where
  dispatcher := { cache := create fingerprint anchor persistentPath file }
  guest := g

theorem Coherent.start {fingerprint : BitVec 64} {file : Option (List Byte)}
    (hfile : ∀ bytes, file = some bytes → Written engine.translator fingerprint bytes)
    (anchor : BitVec 64) (persistentPath : Bool) (g : GuestState) :
    Coherent engine (start fingerprint anchor persistentPath file g) where
  transparent := .start hfile anchor persistentPath
  oneLimit a maximum ha := by cases ha
  validated a entry he := by cases he
  dispatch slot entry he := by cases he

/-- In every process the two caches agree at every moment, so the entries in front of the table
change nothing; and no turn comes upon a block that was freed. -/
theorem dispatchCache_agrees (engine : Engine I E) (fingerprint anchor : BitVec 64)
    (persistentPath : Bool) (file : Option (List Byte))
    (hfile : ∀ bytes, file = some bytes → Written engine.translator fingerprint bytes)
    (g : GuestState) (steps : List Step) {p : Process}
    (hp : p = afterSteps engine (start fingerprint anchor persistentPath file g) steps) :
    (∀ address version, p.dispatcher.findBlock address version =
        p.dispatcher.cache.findCurrent address version) ∧
      ∀ refusal returnSentinel maximumBlocks,
        (turn engine refusal returnSentinel maximumBlocks p).1 ≠ .failed (.cache .dangling) := by
  have h : Coherent engine p := hp ▸ (Coherent.start hfile anchor persistentPath g).afterSteps steps
  exact ⟨h.findBlock_eq, fun refusal returnSentinel maximumBlocks =>
    (h.turn refusal returnSentinel maximumBlocks).2⟩

/-- The block under the number is what a translation of the code at the address would be now. -/
def Current (engine : Engine I E) (p : Process) (address : GuestAddress) (id : BlockId) : Prop :=
  ∃ bytes, code p.space address.toNat = some bytes ∧
    ReturnsFresh engine.translator address bytes engine.maximumInstructionsPerBlock id
      p.dispatcher.cache

/-- A block that the table has for the version of now is current. -/
theorem Coherent.current (hp : Coherent engine p) (hlocal : engine.translator.DecodesLocally)
    (hcounted : Along (fun s call => call.CountsChanges s) {} p.history)
    (hlength : p.history.length < 2 ^ 64) {address : GuestAddress} {id : BlockId}
    (hlookup : p.dispatcher.cache.lookup address = some ⟨id, p.space.executableVersion⟩) :
    Current engine p address id := by
  obtain ⟨earlier, later, bytes, block, hsplit, hversion, hcode, hb, hsource⟩ :=
    hp.validated address _ hlookup
  have hspace : p.space = afterAll {} (earlier ++ later) := by rw [Process.space, hsplit]
  rw [hsplit] at hcounted hlength
  have hsame := sameCode_of_executableVersion hcounted
    (by rw [List.length_append] at hlength; omega) (by rw [← hspace]; exact hversion.symm)
    address.toNat
  refine ⟨bytes, by rw [hspace, hsame, hcode], ?_⟩
  -- the record of the block is genuine, and other code with the same source bytes has the same
  -- translation
  have hid := hp.transparent.consistent.indexed address _ hlookup
  obtain ⟨record, hrecord, hgenuine⟩ := hp.transparent.blocks hid
  obtain ⟨block', hb', hrecord', hmaximum⟩ := recordAt_maximumInstructions hrecord
  obtain rfl : block = block' := Option.some.inj (hb.symm.trans hb')
  have hlimit := hp.oneLimit address _ hmaximum
  rw [hlimit] at hrecord'
  subst hrecord'
  obtain ⟨fresh, hfresh, hdescribes⟩ := hgenuine.translate hlocal hsource
  exact ⟨block, fresh, hb, hsource, hfresh, hdescribes⟩

/-- The block of a selection is current. -/
theorem Selected.currentBlock {id : BlockId} (hs : Selected engine p id q)
    (hlocal : engine.translator.DecodesLocally)
    (hcounted : Along (fun s call => call.CountsChanges s) {} p.history)
    (hlength : p.history.length + 1 < 2 ^ 64) : Current engine q p.guest.rip id := by
  refine hs.coherent.current hlocal ?_ ?_ (by rw [hs.current, hs.version])
  · rcases hs.history with hsame | hmore
    · rwa [hsame]
    · rw [hmore]
      exact hcounted.concat trivial
  · rcases hs.history with hsame | hmore
    · rw [hsame]
      omega
    · rw [hmore, List.length_append, List.length_singleton]
      exact hlength

/-- Whatever a process has gone through, the block that its next turn selects is the one that a
translation of the code at RIP would give at that moment, as long as the changes of its code were
counted. -/
theorem selectBlock_current (engine : Engine I E) (hlocal : engine.translator.DecodesLocally)
    (fingerprint anchor : BitVec 64) (persistentPath : Bool) (file : Option (List Byte))
    (hfile : ∀ bytes, file = some bytes → Written engine.translator fingerprint bytes)
    (g : GuestState) (steps : List Step) {p : Process}
    (hp : p = afterSteps engine (start fingerprint anchor persistentPath file g) steps)
    (hcounted : Along (fun s call => call.CountsChanges s) {} p.history)
    (hlength : p.history.length + 1 < 2 ^ 64) (refusal : Option String) {id : BlockId}
    {q : Process} (hselect : selectBlock engine refusal p = (.ok id, q)) :
    q.guest = p.guest ∧ q.dispatcher.cache.blocks.lookup p.guest.rip = some id ∧
      Current engine q p.guest.rip id := by
  have h : Coherent engine p := hp ▸ (Coherent.start hfile anchor persistentPath g).afterSteps steps
  obtain ⟨id', q', hselect', hs⟩ | ⟨e, q', hselect', -⟩ := selectBlock_spec h refusal
  · obtain ⟨⟨⟩, rfl⟩ : (.ok id : Except (RunError E) BlockId) = .ok id' ∧ q = q' := by
      rw [hselect] at hselect'
      exact Prod.mk.inj hselect'
    exact ⟨hs.guest, hs.coherent.transparent.consistent.indexed _ _ hs.current,
      hs.currentBlock hlocal hcounted hlength⟩
  · rw [hselect] at hselect'
    cases hselect'

/-- The dispatcher of a guest that only returns : the machine code of a block sets RIP to its last
instruction. -/
def sledEngine : Engine Unit Unit where
  translator := nopTranslator
  lowerToIr _ := .ok ⟨0, [], 0⟩
  llvmBackendAvailable := false
  compileError _ := none
  entry block context g _ :=
    { rawExit := 2
      faultRip := g.rip
      remainingBlockExecutions := BitVec.ofNat 64 (context.remainingBlockExecutions - 1)
      guest := { g with rip := block.lastInstructionAddress } }
  loop _ _ g _ := { executionCount := none, guest := g }
  syscall _ g _ := { outcome := .ok {}, guest := g }
  sharedCache := some [⟨0, 0x1000, 0x1000⟩]
  maximumInstructionsPerBlock := -1

/-- A guest at the end of a page that is also its stack. -/
def sledGuest : GuestState where
  regs r := if r = .rsp then 0x1000 else 0
  rip := 0x1fff
  rflags := 0x202
  xmm _ := (0, 0)
  ymmUpper _ := (0, 0)
  gsBase := 0

/-- The page is mapped and gets a return at its end and the address of it on the stack; a turn
executes the return, and then the stack is written. -/
def sledSteps : List Step :=
  [.memory [.mapAnonymous 0x1000 0x1000 { read := true, write := true, execute := true }
      { read := true, write := true, execute := true } "code" none,
      .writeBytes 0x1fff [0xC3], .writeBytes 0x1000 [0xff, 0x1f]],
    .enter sledGuest, .turn none none 5, .memory [.writeBytes 0x1000 [0xff, 0x1f]]]

/-- The process after that. -/
def sledProcess : Process := afterSteps sledEngine (start 7 0 false none sledGuest) sledSteps

theorem dispatchCache_agrees_sled :
    sledProcess.dispatcher.findBlock 0x1fff 3 = sledProcess.dispatcher.cache.findCurrent 0x1fff 3 :=
  (dispatchCache_agrees sledEngine 7 0 false none (by simp) sledGuest sledSteps
    (p := sledProcess) rfl).1 0x1fff 3

theorem selectBlock_current_sled :
    (selectBlock sledEngine none sledProcess).1 = .ok 0 ∧
      Current sledEngine (selectBlock sledEngine none sledProcess).2 0x1fff 0 := by
  have hselect : (selectBlock sledEngine none sledProcess).1 = .ok 0 := rfl
  refine ⟨hselect, ?_⟩
  have hhistory : Along (fun s call => call.CountsChanges s) {} sledProcess.history :=
    ⟨trivial, trivial, trivial, trivial, trivial, trivial, trivial⟩
  exact (selectBlock_current sledEngine decodesLocally_nopTranslator 7 0 false none (by simp)
    sledGuest sledSteps (p := sledProcess) rfl hhistory (by decide) none
    (Prod.ext hselect rfl)).2.2

end Dispatcher

end Rosa
