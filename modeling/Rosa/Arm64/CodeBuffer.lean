import Rosa.Guest.WrittenBytes

/-!
# The arena of executable code

`ExecutableArena` of `arm64/CodeBuffer.cpp`. Code is placed one program after the other in
the last chunk, at multiples of sixteen, and a program that does not fit there gets a new
chunk. After a batch is copied the instruction cache is told of its ranges; ranges with less
than an alignment between them are merged, also across chunks.

What a sequence of reservations has done is one relation between the arena before and after
it (`Reserves`), which composes; every run of calls is an instance of it
(`afterCalls_sound`). The answers of `mmap` are a parameter; every chunk is one of them, so
addresses are not reduced, as no region ends beyond the address space.
-/

namespace Rosa

namespace Arm64

namespace ExecutableArena

open Rosa.Computation

/-! ## The arena -/

/-- `Chunk`. -/
structure Chunk where
  mapping : Nat
  size : Nat
  used : Nat := 0
  deriving DecidableEq, Repr

/-- `Allocation`. -/
structure Allocation where
  address : Nat
  size : Nat
  deriving DecidableEq, Repr

/-- `ExecutableArena`. -/
structure Arena where
  chunkSize : Nat
  pageSize : Nat
  allocatedBytes : Nat := 0
  usedBytes : Nat := 0
  chunks : List Chunk := []
  deriving DecidableEq, Repr

/-- The arena, the memory of the process, the ranges that `sys_icache_invalidate` was called
with, and how often `mmap` was called. -/
structure Process where
  arena : Arena
  memory : Nat → Byte := fun _ => 0
  invalidated : List (Nat × Nat) := []
  mapCount : Nat := 0

/-- What `mmap` answers to its calls, by their number, the chunks that are there and the size : an
address, or why there is none. -/
abbrev Mmap := Nat → List Chunk → Nat → Except String Nat

/-- A method of the arena. -/
abbrev Method (α : Type) := Computation Process String α

def failIf (condition : Bool) (message : String) : Method Unit := raiseIf condition message

/-- `roundUp`. -/
def roundUp (value alignment : Nat) : Method Nat := do
  failIf (alignment == 0) "executable code alignment must be nonzero"
  let remainder := value % alignment
  if remainder = 0 then pure value
  else
    let padding := alignment - remainder
    failIf (2 ^ 64 - 1 - padding < value) "executable code mapping size overflows"
    pure (value + padding)

/-- `codeAlignment`. -/
def codeAlignment : Nat := 16

/-- The arena with one more chunk. -/
def Arena.map (arena : Arena) (chunk : Chunk) : Arena :=
  { arena with
    chunks := arena.chunks ++ [chunk]
    allocatedBytes := arena.allocatedBytes + chunk.size }

/-- The part of `reserve` that maps a chunk for a program of `size` bytes. -/
def mapChunk (mmap : Mmap) (size : Nat) : Method Chunk := do
  let required ← roundUp size codeAlignment
  let p ← get
  let allocationSize ← roundUp (max p.arena.chunkSize required) p.arena.pageSize
  failIf (2 ^ 64 - 1 - p.arena.allocatedBytes < allocationSize) "executable arena size overflows"
  modify fun p => { p with mapCount := p.mapCount + 1 }
  match mmap p.mapCount p.arena.chunks allocationSize with
  | .error reason => raise ("MAP_JIT allocation failed: " ++ reason)
  | .ok mapping =>
    let chunk := { mapping, size := allocationSize }
    modify fun p => { p with arena := p.arena.map chunk }
    pure chunk

/-- The chunk that a program goes to, which is the last one, and its offset there. -/
def chunkFor (mmap : Mmap) (size : Nat) : Method (Chunk × Nat) := do
  let p ← get
  match p.arena.chunks.getLast? with
  | none =>
    let chunk ← mapChunk mmap size
    pure (chunk, 0)
  | some chunk =>
    let offset ← roundUp chunk.used codeAlignment
    if chunk.size < offset ∨ chunk.size - offset < size then
      let chunk ← mapChunk mmap size
      pure (chunk, 0)
    else pure (chunk, offset)

/-- The last chunk is used up to an offset. -/
def Arena.use (arena : Arena) (chunk : Chunk) (nextOffset : Nat) : Arena :=
  { arena with
    usedBytes := arena.usedBytes + (nextOffset - chunk.used)
    chunks := arena.chunks.dropLast ++ [{ chunk with used := nextOffset }] }

/-- `reserve`. -/
def reserve (mmap : Mmap) (size : Nat) : Method Allocation := do
  failIf (size == 0) "cannot create an empty executable code buffer"
  let (chunk, offset) ← chunkFor mmap size
  failIf (2 ^ 64 - 1 - size < offset) "executable arena offset overflows"
  let nextOffset := offset + size
  let p ← get
  failIf (2 ^ 64 - 1 - p.arena.usedBytes < nextOffset - chunk.used)
    "executable arena used-byte count overflows"
  modify fun p => { p with arena := p.arena.use chunk nextOffset }
  pure ⟨chunk.mapping + offset, size⟩

/-- `memcpy` of a program to its allocation. -/
def copyProgram (allocation : Allocation) (program : List Byte) (p : Process) : Process :=
  { p with memory := overwrite p.memory allocation.address program }

/-- Calls of `sys_icache_invalidate`. -/
def invalidate (ranges : List (Nat × Nat)) (p : Process) : Process :=
  { p with invalidated := p.invalidated ++ ranges }

/-- `publish`. -/
def publish (mmap : Mmap) (bytes : List Byte) : Method Allocation := do
  let allocation ← reserve mmap bytes.length
  modify (copyProgram allocation bytes)
  modify (invalidate [(allocation.address, allocation.size)])
  pure allocation

/-- The first loop of `publishBatch`. -/
def reserveEach (mmap : Mmap) : List (List Byte) → Method (List Allocation)
  | [] => pure []
  | program :: programs => do
    let allocation ← reserve mmap program.length
    let allocations ← reserveEach mmap programs
    pure (allocation :: allocations)

/-- The second loop of `publishBatch`. -/
def copyEach : List Allocation → List (List Byte) → Process → Process
  | allocation :: allocations, program :: programs, p =>
    copyEach allocations programs (copyProgram allocation program p)
  | _, _, p => p

/-- The third loop of `publishBatch` : the ranges, as start and length, that are invalidated if the
range up to now is from `rangeStart` to `rangeEnd`. -/
def mergedRanges (rangeStart rangeEnd : Nat) : List Allocation → List (Nat × Nat)
  | [] => [(rangeStart, rangeEnd - rangeStart)]
  | allocation :: allocations =>
    let start := allocation.address
    if rangeEnd ≤ start ∧ start - rangeEnd < 16 then
      mergedRanges rangeStart (start + allocation.size) allocations
    else
      (rangeStart, rangeEnd - rangeStart) ::
        mergedRanges start (start + allocation.size) allocations

/-- `publishBatch`. -/
def publishBatch (mmap : Mmap) (programs : List (List Byte)) : Method (List Allocation) := do
  let allocations ← reserveEach mmap programs
  match allocations with
  | [] => pure []
  | front :: rest =>
    modify (copyEach (front :: rest) programs)
    modify (invalidate (mergedRanges front.address (front.address + front.size) rest))
    pure (front :: rest)

/-- A call of the arena. -/
inductive Call
  | reserve (size : Nat)
  | publish (bytes : List Byte)
  | publishBatch (programs : List (List Byte))

/-- What a call does, and the allocations it hands out. -/
def Call.run (mmap : Mmap) : Call → Method (List Allocation)
  | reserve size => do
    let allocation ← ExecutableArena.reserve mmap size
    pure [allocation]
  | publish bytes => do
    let allocation ← ExecutableArena.publish mmap bytes
    pure [allocation]
  | publishBatch programs => ExecutableArena.publishBatch mmap programs

/-- The process after a call, with all allocations that were handed out; a call that throws hands
out none. -/
def afterCall (mmap : Mmap) (state : Process × List Allocation) (call : Call) :
    Process × List Allocation :=
  ((call.run mmap state.1).2, state.2 ++ ((call.run mmap state.1).1.toOption).getD [])

/-- The process after a sequence of calls, from a new arena. -/
def afterCalls (mmap : Mmap) (chunkSize pageSize : Nat) (calls : List Call) :
    Process × List Allocation :=
  calls.foldl (afterCall mmap) ({ arena := { chunkSize, pageSize } }, [])

/-! ## Ranges -/

/-- Two ranges do not meet. -/
def Apart (start size start' size' : Nat) : Prop := start + size ≤ start' ∨ start' + size' ≤ start

/-- Two allocations do not meet. -/
def Allocation.Apart (a b : Allocation) : Prop :=
  ExecutableArena.Apart a.address a.size b.address b.size

/-- Two chunks do not meet. -/
def Chunk.Apart (c d : Chunk) : Prop :=
  ExecutableArena.Apart c.mapping c.size d.mapping d.size

/-- The allocation is in the used part of the chunk, at a multiple of the alignment. -/
structure Chunk.Has (c : Chunk) (a : Allocation) : Prop where
  low : c.mapping ≤ a.address
  high : a.address + a.size ≤ c.mapping + c.used
  aligned : (a.address - c.mapping) % codeAlignment = 0

/-- The allocation does not meet the used part of the chunk. -/
def Chunk.Spares (c : Chunk) (a : Allocation) : Prop :=
  ExecutableArena.Apart c.mapping c.used a.address a.size

/-- The same chunk, with more of it used. -/
structure Chunk.Grows (c c' : Chunk) : Prop where
  mapping : c'.mapping = c.mapping
  size : c'.size = c.size
  used : c.used ≤ c'.used

variable {mmap : Mmap} {c c' d : Chunk} {a b : Allocation}

theorem Chunk.Grows.refl (c : Chunk) : c.Grows c := ⟨rfl, rfl, le_refl _⟩

theorem Chunk.Grows.has (h : c.Grows c') (ha : c.Has a) : c'.Has a := by
  have hmapping := h.mapping
  have hused := h.used
  have hhigh := ha.high
  refine ⟨hmapping ▸ ha.low, by omega, ?_⟩
  rw [hmapping]
  exact ha.aligned

theorem Chunk.Grows.spares (h : c.Grows c') (ha : c'.Spares a) : c.Spares a := by
  have hmapping := h.mapping
  have hused := h.used
  unfold Chunk.Spares ExecutableArena.Apart at ha ⊢
  omega

/-- What the used part has and what spares it do not meet. -/
theorem Chunk.Has.apart (ha : c.Has a) (hb : c.Spares b) : a.Apart b := by
  have hlow := ha.low
  have hhigh := ha.high
  unfold Chunk.Spares ExecutableArena.Apart at hb
  unfold Allocation.Apart ExecutableArena.Apart
  omega

/-! ## What reservations do -/

/-- What reservations have done to the arena. -/
structure Reserves (before : Arena) (allocations : List Allocation) (after : Arena) : Prop where
  grows : ∀ c ∈ before.chunks, ∃ c' ∈ after.chunks, c.Grows c'
  inside : ∀ a ∈ allocations, ∃ c ∈ after.chunks, c.Has a
  fresh : ∀ a ∈ allocations, ∀ c ∈ before.chunks, c.Spares a
  apart : allocations.Pairwise Allocation.Apart

theorem Reserves.none {before after : Arena}
    (h : ∀ c ∈ before.chunks, ∃ c' ∈ after.chunks, c.Grows c') : Reserves before [] after where
  grows := h
  inside _ ha := absurd ha List.not_mem_nil
  fresh _ ha := absurd ha List.not_mem_nil
  apart := .nil

theorem Reserves.refl (arena : Arena) : Reserves arena [] arena :=
  .none fun c hc => ⟨c, hc, .refl c⟩

/-- Reservations one after the other. -/
theorem Reserves.append {first second third : Arena} {as bs : List Allocation}
    (h : Reserves first as second) (h' : Reserves second bs third) :
    Reserves first (as ++ bs) third where
  grows c hc := by
    obtain ⟨c', hc', hgrows⟩ := h.grows c hc
    obtain ⟨c'', hc'', hgrows'⟩ := h'.grows c' hc'
    exact ⟨c'', hc'', hgrows'.mapping.trans hgrows.mapping, hgrows'.size.trans hgrows.size,
      hgrows.used.trans hgrows'.used⟩
  inside a ha := by
    rcases List.mem_append.mp ha with ha | ha
    · obtain ⟨c, hc, hhas⟩ := h.inside a ha
      obtain ⟨c', hc', hgrows⟩ := h'.grows c hc
      exact ⟨c', hc', hgrows.has hhas⟩
    · exact h'.inside a ha
  fresh a ha c hc := by
    rcases List.mem_append.mp ha with ha | ha
    · exact h.fresh a ha c hc
    · obtain ⟨c', hc', hgrows⟩ := h.grows c hc
      exact hgrows.spares (h'.fresh a ha c' hc')
  apart := by
    refine List.pairwise_append.mpr ⟨h.apart, h'.apart, fun a ha b hb => ?_⟩
    obtain ⟨c, hc, hhas⟩ := h.inside a ha
    exact hhas.apart (h'.fresh b hb c hc)

/-- Reservations whose allocations are not handed out. -/
theorem Reserves.drop {before after : Arena} {as : List Allocation} (h : Reserves before as after) :
    Reserves before [] after :=
  .none h.grows

/-- What is kept of an arena. -/
structure Kept (mmap : Mmap) (arena : Arena) : Prop where
  fits : ∀ c ∈ arena.chunks, c.used ≤ c.size
  apart : arena.chunks.Pairwise Chunk.Apart
  answered : ∀ c ∈ arena.chunks, ∃ call live, mmap call live c.size = .ok c.mapping
  usedBytes : arena.usedBytes = (arena.chunks.map Chunk.used).sum
  allocatedBytes : arena.allocatedBytes = (arena.chunks.map Chunk.size).sum

theorem Kept.initial (mmap : Mmap) (chunkSize pageSize : Nat) :
    Kept mmap { chunkSize, pageSize } where
  fits _ hc := absurd hc List.not_mem_nil
  apart := .nil
  answered _ hc := absurd hc List.not_mem_nil
  usedBytes := rfl
  allocatedBytes := rfl

/-- A part of the last chunk is used. -/
theorem Kept.use {arena : Arena} {init : List Chunk} {offset size : Nat} (h : Kept mmap arena)
    (hlast : arena.chunks = init ++ [c]) (hused : c.used ≤ offset)
    (haligned : offset % codeAlignment = 0) (hfits : offset + size ≤ c.size) :
    Kept mmap (arena.use c (offset + size)) ∧
      Reserves arena [⟨c.mapping + offset, size⟩] (arena.use c (offset + size)) := by
  have hchunks : (arena.use c (offset + size)).chunks =
      init ++ [{ c with used := offset + size }] := by
    rw [Arena.use, hlast, List.dropLast_concat]
  have hapart := h.apart
  have hcount := h.usedBytes
  have hsizes := h.allocatedBytes
  rw [hlast] at hapart hcount hsizes
  rw [List.map_append, List.sum_append] at hcount hsizes
  obtain ⟨hinit, -, hcross⟩ := List.pairwise_append.mp hapart
  refine ⟨⟨fun d hd => ?_, ?_, fun d hd => ?_, ?_, ?_⟩,
    ⟨fun d hd => ?_, fun a ha => ?_, fun a ha d hd => ?_, List.pairwise_singleton _ _⟩⟩
  · rw [hchunks] at hd
    rcases List.mem_append.mp hd with hd | hd
    · exact h.fits d (hlast ▸ List.mem_append_left _ hd)
    · obtain rfl := List.mem_singleton.mp hd
      exact hfits
  · rw [hchunks]
    refine List.pairwise_append.mpr ⟨hinit, List.pairwise_singleton _ _, fun d hd e he => ?_⟩
    obtain rfl := List.mem_singleton.mp he
    exact hcross d hd c List.mem_cons_self
  · rw [hchunks] at hd
    rcases List.mem_append.mp hd with hd | hd
    · exact h.answered d (hlast ▸ List.mem_append_left _ hd)
    · obtain rfl := List.mem_singleton.mp hd
      exact h.answered c (hlast ▸ List.mem_append_right _ List.mem_cons_self)
  · rw [hchunks, List.map_append, List.sum_append, Arena.use, hcount]
    simp only [List.map_cons, List.map_nil, List.sum_cons, List.sum_nil]
    omega
  · rw [hchunks, List.map_append, List.sum_append, Arena.use, hsizes]
    rfl
  · rw [hlast] at hd
    rw [hchunks]
    rcases List.mem_append.mp hd with hd | hd
    · exact ⟨d, List.mem_append_left _ hd, .refl d⟩
    · obtain rfl := List.mem_singleton.mp hd
      exact ⟨_, List.mem_append_right _ List.mem_cons_self, rfl, rfl, by dsimp only; omega⟩
  · obtain rfl := List.mem_singleton.mp ha
    rw [hchunks]
    refine ⟨_, List.mem_append_right _ List.mem_cons_self, Nat.le_add_right _ _, ?_, ?_⟩
    · dsimp only
      omega
    · rw [Nat.add_sub_cancel_left]
      exact haligned
  · obtain rfl := List.mem_singleton.mp ha
    have hdfits := h.fits d hd
    rw [hlast] at hd
    unfold Chunk.Spares ExecutableArena.Apart
    dsimp only
    rcases List.mem_append.mp hd with hd | hd
    · have := hcross d hd c List.mem_cons_self
      unfold Chunk.Apart ExecutableArena.Apart at this
      omega
    · obtain rfl := List.mem_singleton.mp hd
      omega

/-- A chunk is mapped. -/
theorem Kept.map {arena : Arena} {mapping size call : Nat} {live : List Chunk}
    (h : Kept mmap arena) (hanswer : mmap call live size = .ok mapping)
    (hapart : ∀ c ∈ arena.chunks, Apart c.mapping c.size mapping size) :
    Kept mmap (arena.map ⟨mapping, size, 0⟩) ∧
      Reserves arena [] (arena.map ⟨mapping, size, 0⟩) := by
  refine ⟨⟨fun d hd => ?_, ?_, fun d hd => ?_, ?_, ?_⟩,
    .none fun d hd => ⟨d, List.mem_append_left _ hd, .refl d⟩⟩
  · rcases List.mem_append.mp hd with hd | hd
    · exact h.fits d hd
    · obtain rfl := List.mem_singleton.mp hd
      exact Nat.zero_le _
  · refine List.pairwise_append.mpr ⟨h.apart, List.pairwise_singleton _ _, fun d hd e he => ?_⟩
    obtain rfl := List.mem_singleton.mp he
    exact hapart d hd
  · rcases List.mem_append.mp hd with hd | hd
    · exact h.answered d hd
    · obtain rfl := List.mem_singleton.mp hd
      exact ⟨call, live, hanswer⟩
  · rw [Arena.map, List.map_append, List.sum_append, h.usedBytes]
    rfl
  · rw [Arena.map, List.map_append, List.sum_append, h.allocatedBytes]
    rfl

/-! ## The methods -/

/-- Every region that `mmap` answers is apart from the chunks that are there. -/
def Mmap.Disjoint (mmap : Mmap) : Prop :=
  ∀ call live size mapping, mmap call live size = .ok mapping →
    ∀ c ∈ live, Apart c.mapping c.size mapping size

/-- A part of a method has reserved allocations, and neither written nor invalidated anything. -/
structure Reserved (mmap : Mmap) (p : Process) (allocations : List Allocation) (p' : Process) :
    Prop where
  kept : Kept mmap p'.arena
  reserves : Reserves p.arena allocations p'.arena
  memory : p'.memory = p.memory
  invalidated : p'.invalidated = p.invalidated

variable {p p' p'' : Process} {as bs : List Allocation}

theorem Reserved.refl (h : Kept mmap p.arena) : Reserved mmap p [] p := ⟨h, .refl _, rfl, rfl⟩

theorem Reserved.append (h : Reserved mmap p as p') (h' : Reserved mmap p' bs p'') :
    Reserved mmap p (as ++ bs) p'' :=
  ⟨h'.kept, h.reserves.append h'.reserves, h'.memory.trans h.memory,
    h'.invalidated.trans h.invalidated⟩

theorem Reserved.drop (h : Reserved mmap p as p') : Reserved mmap p [] p' :=
  ⟨h.kept, h.reserves.drop, h.memory, h.invalidated⟩

theorem roundUp_spec (value alignment : Nat) :
    Post (roundUp value alignment) p
      (fun rounded p' => p' = p ∧ value ≤ rounded ∧ rounded % alignment = 0)
      fun _ p' => p' = p := by
  refine Post.bind (Post.raiseIf (fun _ => rfl) fun hnonzero => ?_)
  have hpos : 0 < alignment := Nat.pos_of_ne_zero (by simpa using hnonzero)
  dsimp only
  split
  · next hzero => exact Post.pure ⟨rfl, le_refl _, hzero⟩
  · next hrest =>
    refine Post.bind (Post.raiseIf (fun _ => rfl) fun _ => Post.pure ⟨rfl, by omega, ?_⟩)
    have hlt := Nat.mod_lt value hpos
    have hdiv := Nat.div_add_mod value alignment
    have hmultiple : value + (alignment - value % alignment) =
        alignment * (value / alignment + 1) := by
      rw [Nat.mul_add, Nat.mul_one]
      omega
    rw [hmultiple, Nat.mul_mod_right]

/-- A rounding that throws has done nothing. -/
theorem reserved_of_eq (h : Kept mmap p.arena) (hp : p' = p) :
    Reserved mmap p [] p' := by
  subst hp
  exact .refl h

theorem mapChunk_spec (hmmap : mmap.Disjoint) (h : Kept mmap p.arena) (size : Nat) :
    Post (mapChunk mmap size) p
      (fun chunk p' => Reserved mmap p [] p' ∧ p'.arena.chunks = p.arena.chunks ++ [chunk] ∧
        chunk.used = 0 ∧ size ≤ chunk.size)
      fun _ p' => Reserved mmap p [] p' := by
  refine Post.bind ((roundUp_spec size codeAlignment).mono ?_ fun _ _ => reserved_of_eq h)
  rintro required p' ⟨rfl, hrequired, -⟩
  refine Post.bind (Post.get (Post.bind ((roundUp_spec _ _).mono ?_ fun _ _ => reserved_of_eq h)))
  rintro allocationSize p' ⟨rfl, hsize, -⟩
  refine Post.bind (Post.raiseIf (fun _ => .refl h) fun _ => Post.bind (Post.modify ?_))
  cases hanswer : mmap p'.mapCount p'.arena.chunks allocationSize with
  | error reason => exact Post.raise ⟨h, .refl _, rfl, rfl⟩
  | ok mapping =>
    obtain ⟨hkept, hreserves⟩ := h.map hanswer (hmmap _ _ _ _ hanswer)
    exact Post.bind (Post.modify (Post.pure ⟨⟨hkept, hreserves, rfl, rfl⟩, rfl, rfl, by
      have := le_max_right p'.arena.chunkSize required
      exact hrequired.trans (this.trans hsize)⟩))

/-- The place for a program of `size` bytes : an aligned offset behind what is used of the last
chunk, with room for it. -/
structure Place (mmap : Mmap) (size : Nat) (p : Process) (place : Chunk × Nat) (p' : Process) :
    Prop where
  reserved : Reserved mmap p [] p'
  last : ∃ init, p'.arena.chunks = init ++ [place.1]
  used : place.1.used ≤ place.2
  aligned : place.2 % codeAlignment = 0
  fits : place.2 + size ≤ place.1.size

theorem mapChunk_place (hmmap : mmap.Disjoint) (h : Kept mmap p.arena) (size : Nat) :
    Post (mapChunk mmap size >>= fun chunk => pure (chunk, 0)) p (Place mmap size p)
      fun _ p' => Reserved mmap p [] p' := by
  refine Post.bind ((mapChunk_spec hmmap h size).mono ?_ fun _ _ => id)
  rintro chunk p' ⟨hreserved, hchunks, hused, hsize⟩
  exact Post.pure ⟨hreserved, ⟨_, hchunks⟩, hused.le, rfl, (Nat.zero_add size).symm ▸ hsize⟩

theorem chunkFor_spec (hmmap : mmap.Disjoint) (h : Kept mmap p.arena) (size : Nat) :
    Post (chunkFor mmap size) p (Place mmap size p) fun _ p' => Reserved mmap p [] p' := by
  refine Post.bind (Post.get ?_)
  cases hlast : p.arena.chunks.getLast? with
  | none => exact mapChunk_place hmmap h size
  | some chunk =>
    refine Post.bind ((roundUp_spec chunk.used codeAlignment).mono ?_ fun _ _ => reserved_of_eq h)
    rintro offset p' ⟨rfl, hused, haligned⟩
    split
    · exact mapChunk_place hmmap h size
    · next hfits =>
      have hend : offset + size ≤ chunk.size := by omega
      obtain ⟨init, hinit⟩ := List.getLast?_eq_some_iff.mp hlast
      exact Post.pure ⟨.refl h, ⟨init, hinit⟩, hused, haligned, hend⟩

/-- One allocation is reserved, of the size that was asked for. -/
theorem reserve_spec (hmmap : mmap.Disjoint) (h : Kept mmap p.arena) (size : Nat) :
    Post (reserve mmap size) p
      (fun allocation p' => Reserved mmap p [allocation] p' ∧ allocation.size = size)
      fun _ p' => Reserved mmap p [] p' := by
  refine Post.bind (Post.raiseIf (fun _ => .refl h) fun _ => ?_)
  refine Post.bind ((chunkFor_spec hmmap h size).mono ?_ fun _ _ => id)
  rintro ⟨chunk, offset⟩ p' hplace
  have hreserved := hplace.reserved
  obtain ⟨init, hlast⟩ := hplace.last
  refine Post.bind (Post.raiseIf (fun _ => hreserved) fun _ => Post.bind (Post.get ?_))
  refine Post.bind (Post.raiseIf (fun _ => hreserved) fun _ => Post.bind (Post.modify ?_))
  obtain ⟨hkept, hreserves⟩ :=
    hreserved.kept.use hlast hplace.used hplace.aligned hplace.fits
  exact Post.pure ⟨hreserved.append ⟨hkept, hreserves, rfl, rfl⟩, rfl⟩

/-- The first loop : an allocation for each program, of its length. -/
theorem reserveEach_spec (hmmap : mmap.Disjoint) (programs : List (List Byte))
    (h : Kept mmap p.arena) :
    Post (reserveEach mmap programs) p
      (fun allocations p' => Reserved mmap p allocations p' ∧
        allocations.map Allocation.size = programs.map List.length)
      fun _ p' => Reserved mmap p [] p' := by
  induction programs generalizing p with
  | nil => exact Post.pure ⟨.refl h, rfl⟩
  | cons program programs ih =>
    refine Post.bind ((reserve_spec hmmap h program.length).mono ?_ fun _ _ => id)
    rintro allocation p' ⟨hreserved, hsize⟩
    refine Post.bind ((ih hreserved.kept).mono ?_ fun _ _ h' => hreserved.drop.append h')
    rintro allocations p'' ⟨hreserved', hsizes⟩
    refine Post.pure ⟨hreserved.append hreserved', ?_⟩
    rw [List.map_cons, List.map_cons, hsize, hsizes]

/-! ## Copies -/

/-- The byte is in the allocation. -/
def Allocation.Holds (a : Allocation) (x : Nat) : Prop := a.address ≤ x ∧ x < a.address + a.size

theorem Allocation.Apart.not_holds {x : Nat} (h : a.Apart b) (hx : b.Holds x) : ¬a.Holds x := by
  unfold Allocation.Apart ExecutableArena.Apart at h
  unfold Allocation.Holds at hx ⊢
  omega

@[simp] theorem arena_copyEach (as : List Allocation) (programs : List (List Byte)) (p : Process) :
    (copyEach as programs p).arena = p.arena := by
  fun_induction copyEach as programs p with
  | case1 => assumption
  | case2 => rfl

@[simp] theorem invalidated_copyEach (as : List Allocation) (programs : List (List Byte))
    (p : Process) : (copyEach as programs p).invalidated = p.invalidated := by
  fun_induction copyEach as programs p with
  | case1 => assumption
  | case2 => rfl

/-- What is not in an allocation is left as it was. -/
theorem memory_copyEach_of_not_holds {programs : List (List Byte)} {x : Nat}
    (hsizes : as.map Allocation.size = programs.map List.length) (hx : ∀ a ∈ as, ¬a.Holds x) :
    (copyEach as programs p).memory x = p.memory x := by
  fun_induction copyEach as programs p with
  | case1 a as program programs p ih =>
    obtain ⟨hsize, hsizes'⟩ := List.cons.inj hsizes
    rw [ih hsizes' fun b hb => hx b (List.mem_cons_of_mem _ hb)]
    have hout := hx a List.mem_cons_self
    unfold Allocation.Holds at hout
    exact AddressSpace.overwrite_of_not_mem fun k hk => by omega
  | case2 => rfl

/-- Every program is at its allocation. -/
theorem memory_copyEach {programs : List (List Byte)}
    (hsizes : as.map Allocation.size = programs.map List.length)
    (hapart : as.Pairwise Allocation.Apart) :
    ∀ place ∈ as.zip programs, ∀ k (hk : k < place.2.length),
      (copyEach as programs p).memory (place.1.address + k) = place.2[k] := by
  fun_induction copyEach as programs p with
  | case1 a as program programs p ih =>
    obtain ⟨hsize, hsizes'⟩ := List.cons.inj hsizes
    obtain ⟨hhead, htail⟩ := List.pairwise_cons.mp hapart
    intro place hplace k hk
    rcases List.mem_cons.mp hplace with rfl | hplace
    · have hin : a.Holds (a.address + k) := ⟨Nat.le_add_right _ _, by dsimp only at hk; omega⟩
      rw [memory_copyEach_of_not_holds hsizes' fun b hb h => (hhead b hb).not_holds h hin]
      exact AddressSpace.overwrite_of_mem hk
    · exact ih hsizes' htail place hplace k hk
  | case2 as programs p hnone =>
    intro place hplace
    cases as with
    | nil => exact absurd hplace List.not_mem_nil
    | cons a as =>
      cases programs with
      | nil => exact absurd hplace List.not_mem_nil
      | cons program programs => exact (hnone a as program programs rfl rfl).elim

/-! ## Ranges that are invalidated -/

/-- The byte is in the range. -/
def InRange (r : Nat × Nat) (x : Nat) : Prop := r.1 ≤ x ∧ x < r.1 + r.2

/-- The ranges have every byte of the first one and of the allocations. -/
theorem mergedRanges_cover {rangeStart rangeEnd x : Nat} (hle : rangeStart ≤ rangeEnd)
    (hx : (rangeStart ≤ x ∧ x < rangeEnd) ∨ ∃ a ∈ as, a.Holds x) :
    ∃ r ∈ mergedRanges rangeStart rangeEnd as, InRange r x := by
  fun_induction mergedRanges rangeStart rangeEnd as with
  | case1 rangeStart rangeEnd =>
    rcases hx with hx | ⟨a, ha, -⟩
    · exact ⟨_, List.mem_cons_self, hx.1, by dsimp only; omega⟩
    · exact absurd ha List.not_mem_nil
  | case2 rangeStart rangeEnd a as start hmerge ih =>
    refine ih (by omega) ?_
    rcases hx with hx | ⟨b, hb, hholds⟩
    · exact .inl ⟨hx.1, by omega⟩
    · rcases List.mem_cons.mp hb with rfl | hb
      · exact .inl ⟨by have := hholds.1; omega, hholds.2⟩
      · exact .inr ⟨b, hb, hholds⟩
  | case3 rangeStart rangeEnd a as start hmerge ih =>
    rcases hx with hx | ⟨b, hb, hholds⟩
    · exact ⟨_, List.mem_cons_self, hx.1, by dsimp only; omega⟩
    · have hrest : ∃ r ∈ mergedRanges start (start + a.size) as, InRange r x := by
        refine ih (Nat.le_add_right _ _) ?_
        rcases List.mem_cons.mp hb with rfl | hb
        · exact .inl hholds
        · exact .inr ⟨b, hb, hholds⟩
      obtain ⟨r, hr, hin⟩ := hrest
      exact ⟨r, List.mem_cons_of_mem _ hr, hin⟩

/-- The byte is between the ends of two allocations, with less than an alignment between them. -/
structure Between (a b : Allocation) (x : Nat) : Prop where
  low : a.address + a.size ≤ x
  high : x < b.address
  short : b.address - (a.address + a.size) < 16

/-- The ranges have no other bytes than those of the first one, of the allocations, and between
two allocations. -/
theorem mergedRanges_subset {P : Nat → Prop} {rangeStart : Nat}
    (hle : rangeStart ≤ a.address + a.size)
    (hstart : ∀ x, rangeStart ≤ x → x < a.address + a.size → P x)
    (hholds : ∀ b ∈ a :: as, ∀ x, b.Holds x → P x)
    (hbetween : ∀ b ∈ a :: as, ∀ c ∈ a :: as, ∀ x, Between b c x → P x) :
    ∀ r ∈ mergedRanges rangeStart (a.address + a.size) as, ∀ x, InRange r x → P x := by
  induction as generalizing rangeStart a with
  | nil =>
    intro r hr x hx
    obtain rfl := List.mem_singleton.mp hr
    obtain ⟨hlow, hhigh⟩ := hx
    exact hstart x hlow (by dsimp only at hhigh; omega)
  | cons b as ih =>
    have hb : b ∈ a :: b :: as := List.mem_cons_of_mem _ List.mem_cons_self
    have hholds' : ∀ c ∈ b :: as, ∀ x, c.Holds x → P x :=
      fun c hc => hholds c (List.mem_cons_of_mem _ hc)
    have hbetween' : ∀ c ∈ b :: as, ∀ d ∈ b :: as, ∀ x, Between c d x → P x :=
      fun c hc d hd => hbetween c (List.mem_cons_of_mem _ hc) d (List.mem_cons_of_mem _ hd)
    unfold mergedRanges
    dsimp only
    split
    · next hmerge =>
      refine ih (by omega) (fun x hlow hhigh => ?_) hholds' hbetween'
      -- the byte is in the range up to now, in the gap, or in the allocation
      by_cases hin : x < a.address + a.size
      · exact hstart x hlow hin
      by_cases hgap : x < b.address
      · exact hbetween a List.mem_cons_self b hb x ⟨by omega, hgap, hmerge.2⟩
      · exact hholds b hb x ⟨by omega, hhigh⟩
    · intro r hr x hx
      rcases List.mem_cons.mp hr with rfl | hr
      · obtain ⟨hlow, hhigh⟩ := hx
        exact hstart x hlow (by dsimp only at hhigh; omega)
      · exact ih (Nat.le_add_right _ _) (fun x hlow hhigh => hholds b hb x ⟨hlow, hhigh⟩) hholds'
          hbetween' r hr x hx

/-! ## What the calls do -/

/-- The byte is in a chunk. -/
def Arena.InChunk (arena : Arena) (x : Nat) : Prop :=
  ∃ c ∈ arena.chunks, c.mapping ≤ x ∧ x < c.mapping + c.size

/-- The byte is in a gap between two chunks of less than an alignment. -/
def Arena.InShortGap (arena : Arena) (x : Nat) : Prop :=
  ∃ c ∈ arena.chunks, ∃ d ∈ arena.chunks, c.mapping + c.size ≤ x ∧ x < d.mapping ∧
    d.mapping - (c.mapping + c.size) < 16

theorem Reserved.inChunk (h : Reserved mmap p as p') (ha : a ∈ as) {x : Nat} (hx : a.Holds x) :
    p'.arena.InChunk x := by
  obtain ⟨c, hc, hhas⟩ := h.reserves.inside a ha
  have hfits := h.kept.fits c hc
  have hlow := hhas.low
  have hhigh := hhas.high
  obtain ⟨hx, hx'⟩ := hx
  exact ⟨c, hc, by omega, by omega⟩

/-- What is between two allocations is in the chunk of one of them or between their chunks. -/
theorem Reserved.between (h : Reserved mmap p as p') (ha : a ∈ as) (hb : b ∈ as) {x : Nat}
    (hx : Between a b x) : p'.arena.InChunk x ∨ p'.arena.InShortGap x := by
  obtain ⟨c, hc, hhas⟩ := h.reserves.inside a ha
  obtain ⟨d, hd, hhas'⟩ := h.reserves.inside b hb
  have hfits := h.kept.fits c hc
  have hfits' := h.kept.fits d hd
  have hlow := hhas.low
  have hhigh := hhas.high
  have hlow' := hhas'.low
  have hhigh' := hhas'.high
  obtain ⟨hx, hx', hshort⟩ := hx
  by_cases hin : x < c.mapping + c.size
  · exact .inl ⟨c, hc, by omega, hin⟩
  by_cases hin' : d.mapping ≤ x
  · exact .inl ⟨d, hd, hin', by omega⟩
  · exact .inr ⟨c, hc, d, hd, by omega, by omega, by omega⟩

/-- The programs are published at the allocations : their bytes are there, nothing else is written,
and the ranges that are invalidated cover them and only short gaps besides the chunks. -/
structure Published (p : Process) (programs : List (List Byte)) (allocations : List Allocation)
    (p' : Process) : Prop where
  sizes : allocations.map Allocation.size = programs.map List.length
  bytes : ∀ place ∈ allocations.zip programs, ∀ k (hk : k < place.2.length),
    p'.memory (place.1.address + k) = place.2[k]
  frame : ∀ x, (∀ a ∈ allocations, ¬a.Holds x) → p'.memory x = p.memory x
  invalidated : ∃ ranges, p'.invalidated = p.invalidated ++ ranges ∧
    (∀ a ∈ allocations, ∀ x, a.Holds x → ∃ r ∈ ranges, InRange r x) ∧
    ∀ r ∈ ranges, ∀ x, InRange r x → p'.arena.InChunk x ∨ p'.arena.InShortGap x

/-- Nothing is written or invalidated. -/
structure Silent (p p' : Process) : Prop where
  memory : p'.memory = p.memory
  invalidated : p'.invalidated = p.invalidated

/-- The calls have kept the arena and handed out the allocations. -/
structure HandsOut (mmap : Mmap) (p : Process) (allocations : List Allocation) (p' : Process) :
    Prop where
  kept : Kept mmap p'.arena
  reserves : Reserves p.arena allocations p'.arena

theorem Reserved.handsOut (h : Reserved mmap p as p') : HandsOut mmap p as p' :=
  ⟨h.kept, h.reserves⟩

theorem Reserved.silent (h : Reserved mmap p as p') : Silent p p' := ⟨h.memory, h.invalidated⟩

/-- Programs that are copied to their reservations, of which the given ranges are invalidated. -/
theorem Reserved.publish (h : Reserved mmap p as p') {programs : List (List Byte)}
    {ranges : List (Nat × Nat)} (hsizes : as.map Allocation.size = programs.map List.length)
    (hcover : ∀ a ∈ as, ∀ x, a.Holds x → ∃ r ∈ ranges, InRange r x)
    (hsubset : ∀ r ∈ ranges, ∀ x, InRange r x → p'.arena.InChunk x ∨ p'.arena.InShortGap x) :
    HandsOut mmap p as (invalidate ranges (copyEach as programs p')) ∧
      Published p programs as (invalidate ranges (copyEach as programs p')) := by
  have harena : (invalidate ranges (copyEach as programs p')).arena = p'.arena :=
    arena_copyEach as programs p'
  refine ⟨⟨harena ▸ h.kept, harena ▸ h.reserves⟩, hsizes,
    memory_copyEach hsizes h.reserves.apart, fun x hx => ?_, ranges, ?_, hcover, harena ▸ hsubset⟩
  · exact (memory_copyEach_of_not_holds hsizes hx).trans (congrFun h.memory x)
  · exact congrArg (· ++ ranges) ((invalidated_copyEach as programs p').trans h.invalidated)

theorem publish_spec (hmmap : mmap.Disjoint) (h : Kept mmap p.arena) (bytes : List Byte) :
    Post (publish mmap bytes) p
      (fun allocation p' => HandsOut mmap p [allocation] p' ∧ Published p [bytes] [allocation] p')
      fun _ p' => HandsOut mmap p [] p' ∧ Silent p p' := by
  refine Post.bind ((reserve_spec hmmap h bytes.length).mono ?_
    fun _ _ h' => ⟨h'.handsOut, h'.silent⟩)
  rintro allocation p' ⟨hreserved, hsize⟩
  refine Post.bind (Post.modify (Post.bind (Post.modify (Post.pure ?_))))
  have hsizes : [allocation].map Allocation.size = [bytes].map List.length :=
    congrArg ([·]) hsize
  refine hreserved.publish hsizes (fun a ha x hx => ?_) fun r hr x hx => ?_
  · obtain rfl := List.mem_singleton.mp ha
    exact ⟨_, List.mem_cons_self, hx⟩
  · obtain rfl := List.mem_singleton.mp hr
    exact .inl (hreserved.inChunk List.mem_cons_self hx)

theorem publishBatch_spec (hmmap : mmap.Disjoint) (h : Kept mmap p.arena)
    (programs : List (List Byte)) :
    Post (publishBatch mmap programs) p
      (fun allocations p' => HandsOut mmap p allocations p' ∧ Published p programs allocations p')
      fun _ p' => HandsOut mmap p [] p' ∧ Silent p p' := by
  refine Post.bind ((reserveEach_spec hmmap programs h).mono ?_
    fun _ _ h' => ⟨h'.handsOut, h'.silent⟩)
  rintro allocations p' ⟨hreserved, hsizes⟩
  cases allocations with
  | nil =>
    obtain rfl : programs = [] := List.map_eq_nil_iff.mp hsizes.symm
    refine Post.pure ⟨hreserved.handsOut, rfl, fun _ h => absurd h List.not_mem_nil,
      fun x _ => congrFun hreserved.memory x, [], ?_, fun _ h => absurd h List.not_mem_nil,
      fun _ h => absurd h List.not_mem_nil⟩
    rw [List.append_nil, hreserved.invalidated]
  | cons front rest =>
    refine Post.bind (Post.modify (Post.bind (Post.modify (Post.pure ?_))))
    refine hreserved.publish hsizes (fun a ha x hx => ?_) ?_
    · refine mergedRanges_cover (Nat.le_add_right _ _) ?_
      rcases List.mem_cons.mp ha with rfl | ha
      · exact .inl hx
      · exact .inr ⟨a, ha, hx⟩
    · exact mergedRanges_subset (Nat.le_add_right _ _)
        (fun x hlow hhigh => .inl (hreserved.inChunk List.mem_cons_self ⟨hlow, hhigh⟩))
        (fun a ha x hx => .inl (hreserved.inChunk ha hx))
        fun a ha b hb x hx => hreserved.between ha hb hx

theorem Call.run_spec (hmmap : mmap.Disjoint) (h : Kept mmap p.arena) (call : Call) :
    Post (call.run mmap) p (HandsOut mmap p) fun _ p' => HandsOut mmap p [] p' := by
  cases call with
  | reserve size =>
    refine Post.bind ((reserve_spec hmmap h size).mono ?_ fun _ _ h' => h'.handsOut)
    exact fun _ _ h' => Post.pure h'.1.handsOut
  | publish bytes =>
    refine Post.bind ((publish_spec hmmap h bytes).mono ?_ fun _ _ h' => h'.1)
    exact fun _ _ h' => Post.pure h'.1
  | publishBatch programs =>
    exact (publishBatch_spec hmmap h programs).mono (fun _ _ h' => h'.1) fun _ _ h' => h'.1

/-! ## Runs -/

theorem HandsOut.append (h : HandsOut mmap p as p') (h' : HandsOut mmap p' bs p'') :
    HandsOut mmap p (as ++ bs) p'' :=
  ⟨h'.kept, h.reserves.append h'.reserves⟩

/-- What a call hands out, whichever way it ends. -/
theorem HandsOut.of_post {x : Method (List Allocation)}
    (h : Post x p (HandsOut mmap p) fun _ p' => HandsOut mmap p [] p') :
    HandsOut mmap p (((x p).1.toOption).getD []) (x p).2 := by
  unfold Post at h
  split at h
  · next hx =>
    rw [hx]
    exact h
  · next hx =>
    rw [hx]
    exact h

theorem HandsOut.afterCall {state : Process × List Allocation} (hmmap : mmap.Disjoint)
    (h : HandsOut mmap p state.2 state.1) (call : Call) :
    HandsOut mmap p (afterCall mmap state call).2 (afterCall mmap state call).1 :=
  h.append (.of_post (Call.run_spec hmmap h.kept call))

theorem HandsOut.foldl {state : Process × List Allocation} (hmmap : mmap.Disjoint)
    (h : HandsOut mmap p state.2 state.1) (calls : List Call) :
    HandsOut mmap p (calls.foldl (ExecutableArena.afterCall mmap) state).2
      (calls.foldl (ExecutableArena.afterCall mmap) state).1 := by
  induction calls generalizing state with
  | nil => exact h
  | cons call calls ih => exact ih (h.afterCall hmmap call)

/-- What the allocations that were handed out are to the chunks of the arena. -/
structure Sound (mmap : Mmap) (arena : Arena) (handed : List Allocation) : Prop where
  apart : handed.Pairwise Allocation.Apart
  inside : ∀ a ∈ handed, ∃ c ∈ arena.chunks, c.mapping ≤ a.address ∧
    a.address + a.size ≤ c.mapping + c.size ∧ (a.address - c.mapping) % codeAlignment = 0 ∧
    (c.mapping % codeAlignment = 0 → a.address % codeAlignment = 0)
  used : ∀ c ∈ arena.chunks, c.used ≤ c.size
  chunks : arena.chunks.Pairwise Chunk.Apart
  answered : ∀ c ∈ arena.chunks, ∃ call live, mmap call live c.size = .ok c.mapping
  usedBytes : arena.usedBytes = (arena.chunks.map Chunk.used).sum
  allocatedBytes : arena.allocatedBytes = (arena.chunks.map Chunk.size).sum

theorem HandsOut.sound (h : HandsOut mmap p as p') : Sound mmap p'.arena as where
  apart := h.reserves.apart
  inside a ha := by
    obtain ⟨c, hc, hhas⟩ := h.reserves.inside a ha
    have hfits := h.kept.fits c hc
    have hlow := hhas.low
    have hhigh := hhas.high
    have haligned := hhas.aligned
    refine ⟨c, hc, hlow, by omega, haligned, fun hmapping => ?_⟩
    unfold codeAlignment at haligned hmapping ⊢
    omega
  used := h.kept.fits
  chunks := h.kept.apart
  answered := h.kept.answered
  usedBytes := h.kept.usedBytes
  allocatedBytes := h.kept.allocatedBytes

theorem handsOut_afterCalls (hmmap : mmap.Disjoint) (chunkSize pageSize : Nat) (calls : List Call) :
    HandsOut mmap { arena := { chunkSize, pageSize } }
      (afterCalls mmap chunkSize pageSize calls).2 (afterCalls mmap chunkSize pageSize calls).1 :=
  .foldl hmmap ⟨.initial mmap chunkSize pageSize, .refl _⟩ calls

/-- After any calls the allocations are apart, inside their chunks and counted, and what is
published then is flushed. -/
theorem afterCalls_sound (hmmap : mmap.Disjoint) (chunkSize pageSize : Nat) (calls : List Call) :
    Sound mmap (afterCalls mmap chunkSize pageSize calls).1.arena
        (afterCalls mmap chunkSize pageSize calls).2 ∧
      (∀ bytes, Post (publish mmap bytes) (afterCalls mmap chunkSize pageSize calls).1
        (fun allocation p' =>
          Published (afterCalls mmap chunkSize pageSize calls).1 [bytes] [allocation] p')
        fun _ p' => Silent (afterCalls mmap chunkSize pageSize calls).1 p') ∧
      ∀ programs, Post (publishBatch mmap programs) (afterCalls mmap chunkSize pageSize calls).1
        (fun allocations p' =>
          Published (afterCalls mmap chunkSize pageSize calls).1 programs allocations p')
        fun _ p' => Silent (afterCalls mmap chunkSize pageSize calls).1 p' := by
  have h := handsOut_afterCalls hmmap chunkSize pageSize calls
  refine ⟨h.sound, fun bytes => ?_, fun programs => ?_⟩
  · exact (publish_spec hmmap h.kept bytes).mono (fun _ _ h' => h'.2) fun _ _ h' => h'.2
  · exact (publishBatch_spec hmmap h.kept programs).mono (fun _ _ h' => h'.2) fun _ _ h' => h'.2

/-- The first page above the chunks. -/
def pageAbove (live : List Chunk) : Nat :=
  live.foldr (fun c page => max ((c.mapping + c.size) / 0x4000 + 1) page) 1

theorem le_pageAbove {live : List Chunk} (hc : c ∈ live) :
    (c.mapping + c.size) / 0x4000 + 1 ≤ pageAbove live := by
  induction live with
  | nil => exact absurd hc List.not_mem_nil
  | cons d live ih =>
    rcases List.mem_cons.mp hc with rfl | hc
    · exact le_max_left _ _
    · exact (ih hc).trans (le_max_right _ _)

/-- Regions above the chunks that are there, while there is room in the address space. -/
def mmapAbove (_call : Nat) (live : List Chunk) (size : Nat) : Except String Nat :=
  if pageAbove live * 0x4000 + size < 2 ^ 47 then .ok (pageAbove live * 0x4000)
  else .error "Cannot allocate memory"

theorem disjoint_mmapAbove : Mmap.Disjoint mmapAbove := by
  intro call live size mapping hanswer c hc
  have habove := le_pageAbove hc
  unfold mmapAbove at hanswer
  split at hanswer
  · have hmapping := Except.ok.inj hanswer
    unfold Apart
    omega
  · exact absurd hanswer (by simp)

/-- Two calls in the first chunk, one that needs a chunk of its own, one that throws, and a batch
that needs a third chunk. -/
def mixedCalls : List Call :=
  [.reserve 5, .publish [0xc0, 0x03, 0x5f, 0xd6], .reserve 0x3ffc, .reserve 0,
    .publishBatch [[0x1f, 0x20, 0x03, 0xd5], [0xc0, 0x03, 0x5f, 0xd6]]]

theorem afterCalls_sound_mixedCalls :
    (afterCalls mmapAbove 0 0x4000 mixedCalls).2 =
        [⟨0x4000, 5⟩, ⟨0x4010, 4⟩, ⟨0xc000, 0x3ffc⟩, ⟨0x14000, 4⟩, ⟨0x14010, 4⟩] ∧
      (afterCalls mmapAbove 0 0x4000 mixedCalls).1.invalidated = [(0x4010, 4), (0x14000, 20)] ∧
      Sound mmapAbove (afterCalls mmapAbove 0 0x4000 mixedCalls).1.arena
        (afterCalls mmapAbove 0 0x4000 mixedCalls).2 :=
  ⟨by decide +kernel, by decide +kernel,
    (afterCalls_sound disjoint_mmapAbove 0 0x4000 mixedCalls).1⟩

end ExecutableArena

end Arm64

end Rosa
