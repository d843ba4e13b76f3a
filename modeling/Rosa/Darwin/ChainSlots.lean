import Rosa.Guest.WrittenBytes

/-!
# Chains of words that are rewritten in place

A walk over a chain reads a word, writes another one in its place and goes on to the next slot.
`Rewrites` is a walk over a list of slots. Bytes outside the slots stay as they are; if the slots
do not overlap, every slot ends with the word that the walk makes of the word it started with.
-/

namespace Rosa

namespace Darwin

/-- The word at an offset. -/
def slotWord (bytes : Nat → Byte) (offset : Nat) : BitVec 64 :=
  ofLittleEndian 64 8 (bytesAt bytes offset 8)

/-- The bytes with a word replaced. -/
def putWord (bytes : Nat → Byte) (offset : Nat) (value : BitVec 64) : Nat → Byte :=
  overwrite bytes offset (littleEndian 8 value)

variable {bytes bytes' bytes'' : Nat → Byte} {offset offset' i : Nat} {value : BitVec 64}

theorem slotWord_congr (h : ∀ k < 8, bytes (offset + k) = bytes' (offset + k)) :
    slotWord bytes offset = slotWord bytes' offset := by
  unfold slotWord bytesAt
  congr 1
  exact List.map_congr_left fun k hk => h k (List.mem_range.mp hk)

theorem putWord_outside (h : i < offset ∨ offset + 8 ≤ i) : putWord bytes offset value i = bytes i := by
  refine AddressSpace.overwrite_of_not_mem fun k hk he => ?_
  rw [length_littleEndian] at hk
  omega

theorem slotWord_putWord : slotWord (putWord bytes offset value) offset = value := by
  have hbytes := AddressSpace.bytesAt_overwrite bytes offset (littleEndian 8 value)
  rw [length_littleEndian] at hbytes
  rw [slotWord, putWord, hbytes, ofLittleEndian_littleEndian (by decide)]

theorem slotWord_putWord_of_apart (h : offset' + 8 ≤ offset ∨ offset + 8 ≤ offset') :
    slotWord (putWord bytes offset value) offset' = slotWord bytes offset' :=
  slotWord_congr fun k hk => putWord_outside (by omega)

/-- A walk over slots from `bytes` to `bytes'`. `step` relates the word of a slot to the one that
is written. -/
def Rewrites (step : BitVec 64 → BitVec 64 → Prop) :
    List Nat → (Nat → Byte) → (Nat → Byte) → Prop
  | [], bytes, bytes' => bytes' = bytes
  | slot :: slots, bytes, bytes' =>
    ∃ value, step (slotWord bytes slot) value ∧ Rewrites step slots (putWord bytes slot value) bytes'

/-- The slots do not overlap. -/
def Apart (slots : List Nat) : Prop := slots.Pairwise fun a b => a + 8 ≤ b ∨ b + 8 ≤ a

variable {step : BitVec 64 → BitVec 64 → Prop} {slots slots' : List Nat}

theorem Rewrites.append (h : Rewrites step slots bytes bytes')
    (h' : Rewrites step slots' bytes' bytes'') : Rewrites step (slots ++ slots') bytes bytes'' := by
  induction slots generalizing bytes with
  | nil =>
    obtain rfl : bytes' = bytes := h
    exact h'
  | cons slot slots ih =>
    obtain ⟨value, hstep, hrest⟩ := h
    exact ⟨value, hstep, ih hrest⟩

/-- Other bytes stay. -/
theorem Rewrites.outside (h : Rewrites step slots bytes bytes')
    (hi : ∀ slot ∈ slots, i < slot ∨ slot + 8 ≤ i) : bytes' i = bytes i := by
  induction slots generalizing bytes with
  | nil =>
    obtain rfl : bytes' = bytes := h
    rfl
  | cons slot slots ih =>
    obtain ⟨value, -, hrest⟩ := h
    rw [ih hrest fun s hs => hi s (List.mem_cons_of_mem _ hs),
      putWord_outside (hi slot List.mem_cons_self)]

/-- Slots that do not overlap are each rewritten once. -/
theorem Rewrites.inside (h : Rewrites step slots bytes bytes') (hapart : Apart slots) :
    ∀ slot ∈ slots, step (slotWord bytes slot) (slotWord bytes' slot) := by
  induction slots generalizing bytes with
  | nil => exact fun slot hs => absurd hs List.not_mem_nil
  | cons first slots ih =>
    obtain ⟨hfirst, hrest⟩ := List.pairwise_cons.mp hapart
    obtain ⟨value, hstep, hwalk⟩ := h
    intro slot hs
    rcases List.mem_cons.mp hs with rfl | hs
    · have hkept : slotWord bytes' slot = slotWord (putWord bytes slot value) slot :=
        slotWord_congr fun k hk => hwalk.outside fun s hs => by
          have := hfirst s hs
          omega
      rw [hkept, slotWord_putWord]
      exact hstep
    · have hword := ih hwalk hrest slot hs
      rwa [slotWord_putWord_of_apart (by have := hfirst slot hs; omega)] at hword

end Darwin

end Rosa
