import Rosa.X86.ProductLowering

/-!
# The lowering implements the instructions

`implements_iff` puts the cases together. One input goes wrong : a 16-bit `ROL` by an immediate
whose masked count is 16 leaves the value, as it should, and takes the path of a count of zero,
which leaves the carry too.
-/

namespace Rosa

namespace X86

open Lowering

/-! ## Every case -/

/-- What the lowering emits does what the instruction does, in every runtime and from every
state. -/
def Implements (i : AluInstruction) : Prop :=
  ∀ (M E : Type) (rt : Runtime M E) (thrown : String → E) (m : Machine M) (n n' : Nat)
    (ops : List Operation), lowerAlu i n = .ok ((), ops, n') →
    ∃ ending seen, meaning rt i m.guest m.memory = some ending ∧
      observed (exec (withDivides rt thrown) ops m) = some seen ∧ ending.Allows m.guest seen

/-- A 16-bit `ROL` by an immediate whose masked count is the width. -/
def RotatesByWidth (i : AluInstruction) : Prop :=
  ∃ r count size, i.opcode = .rolRegImm ∧ i.operands = [.register r 16, .immediate count size] ∧
    count.toNat % 32 = 16

section

variable {M E : Type} {rt : Runtime M E} {n : Nat} {m : Machine M} {thrown : String → E}
variable {i : AluInstruction}

/-- A lowering that reaches the ending of the instruction implements it. -/
theorem seen_of_reaches {x : Lowering Unit} {g : GuestState} {ending : Ending M E}
    (h : Reaches rt x n m g ending) {ops : List Operation} {n' : Nat}
    (hx : x n = .ok ((), ops, n')) :
    ∃ seen, observed (exec rt ops m) = some seen ∧ ending.Allows g seen := by
  unfold Reaches Emits at h
  rw [hx] at h
  dsimp only at h
  rcases hrun : exec rt ops m with m' | o
  · rw [hrun] at h
    exact ⟨_, rfl, h⟩
  · rw [hrun] at h
    exact h

/-- Only at 16 bits is a masked count a multiple of the width without being zero. -/
theorem multiple_of_width {bits : Nat} {count : BitVec 64}
    (h : count.toNat % 32 = 16 → bits ≠ 16) (hb : bits ∈ [16, 32, 64])
    (hzero : maskedCount (widthOf bits) count % bits = 0) :
    maskedCount (widthOf bits) count = 0 := by
  simp only [List.mem_cons, List.not_mem_nil, or_false] at hb
  rcases hb with rfl | rfl | rfl
  · have hcount : count.toNat % 32 ≠ 16 := fun h' => h h' rfl
    have : count.toNat % 32 % 16 = 0 := hzero
    show count.toNat % 32 = 0
    omega
  · have : count.toNat % 32 % 32 = 0 := hzero
    show count.toNat % 32 = 0
    omega
  · have : count.toNat % 64 % 64 = 0 := hzero
    show count.toNat % 64 = 0
    omega

/-- Every case but the one that `RotatesByWidth` names reaches the ending of its instruction. -/
theorem reaches_lowerAlu (hd : Decoded i) (hr : ¬RotatesByWidth i) {ops : List Operation}
    {n' : Nat} (hx : lowerAlu i n = .ok ((), ops, n')) :
    ∃ ending, meaning rt i m.guest m.memory = some ending ∧
      Reaches (withDivides rt thrown) (lowerAlu i) n m m.guest ending := by
  unfold lowerAlu at hx ⊢
  unfold Decoded at hd
  unfold meaning
  split at hx
  all_goals rename_i hop hoperands
  all_goals simp only [hop, hoperands] at hd ⊢
  · exact ⟨_, rfl, reaches_shlCl hd⟩
  · exact ⟨_, rfl, reaches_shrImm hd _⟩
  · exact ⟨_, rfl, reaches_shrCl hd⟩
  · exact ⟨_, rfl, reaches_sarCl hd⟩
  · exact ⟨_, rfl, reaches_sarImm _⟩
  · refine ⟨_, rfl, reaches_rolImm _ ?_⟩
    exact multiple_of_width fun hcount hbits =>
      hr ⟨_, _, _, hop, by rw [hoperands, hbits], hcount⟩
  · exact ⟨_, rfl, reaches_rolCl⟩
  · exact ⟨_, rfl, reaches_rorImm _⟩
  · exact ⟨_, rfl, reaches_rorCl⟩
  · subst hd
    exact ⟨_, rfl, reaches_shrd _⟩
  · exact ⟨_, rfl, reaches_shld _⟩
  · exact ⟨_, rfl, reaches_bswap⟩
  · exact ⟨_, rfl, reaches_not⟩
  · exact ⟨_, rfl, reaches_neg⟩
  · exact ⟨_, rfl, reaches_mul⟩
  · exact ⟨_, rfl, reaches_imul⟩
  · exact ⟨_, rfl, reaches_mulMem hd⟩
  · exact ⟨_, rfl, reaches_imulMem hd⟩
  · refine ⟨_, ?_, reaches_div⟩
    split <;> rfl
  · exact ⟨_, rfl, reaches_divMem hd⟩
  · exact ⟨_, rfl, reaches_idiv⟩
  · exact ⟨_, rfl, reaches_imulReg⟩
  · exact ⟨_, rfl, reaches_imulRegMem hd⟩
  · exact ⟨_, rfl, reaches_imulImm _⟩
  · exact ⟨_, rfl, reaches_imulRegMemImm hd _⟩
  · exact ⟨_, rfl, reaches_orReg⟩
  · exact ⟨_, rfl, reaches_orMem hd⟩
  · exact absurd hx nofun

end

/-- The carry is left alone where it is the lowest bit of the result. -/
theorem not_implements {i : AluInstruction} (h : RotatesByWidth i) : ¬Implements i := by
  obtain ⟨r, count, size, hop, hoperands, hcount⟩ := h
  intro himplements
  have hmasked : maskedCount .i16 count = 16 := hcount
  have hlower : lowerAlu i 0 = .ok ((), [], 0) := by
    have hnone : immediateMasked 16 count % 16 = 0 := by
      rw [immediateMasked_eq (by decide), show widthOf 16 = .i16 from rfl, hmasked]
    unfold lowerAlu
    simp only [hop, hoperands]
    unfold lowerRolImm
    simp only [hnone, if_true]
    rfl
  obtain ⟨ending, seen, hmeaning, hseen, hallows⟩ := himplements Unit Unit .unmapped
    (fun _ => ()) ⟨fun _ => 0, ⟨fun _ => 1, 0, 2, fun _ => 0, fun _ => 0, 0⟩, ()⟩ 0 0 [] hlower
  unfold meaning at hmeaning
  simp only [hop, hoperands, show widthOf 16 = .i16 from rfl, hmasked] at hmeaning
  obtain rfl := Option.some.inj hmeaning
  obtain rfl := Option.some.inj hseen
  obtain ⟨rflags, hmeets, hstate⟩ := hallows
  have hflags : rflags = 2 :=
    (congrArg (fun s : Except Unit Unit × GuestState × Unit => s.2.1.rflags) hstate).symm
  subst hflags
  have hcarry : (flagsOf 2).carry =
      ((BitVec.setWidth 16 (1 : BitVec 64)).rotateLeft 16).getLsbD 0 := hmeets.carry
  exact absurd hcarry (by decide)

/-- The lowering of every instruction with decoded operands implements it, if and only if it is
not a 16-bit rotate by its width. -/
theorem implements_iff (i : AluInstruction) (hd : Decoded i) :
    Implements i ↔ ¬RotatesByWidth i := by
  constructor
  · exact fun himplements h => not_implements h himplements
  · intro hr M E rt thrown m n n' ops hx
    obtain ⟨ending, hmeaning, hreaches⟩ := reaches_lowerAlu hd hr hx
    obtain ⟨seen, hseen, hallows⟩ := seen_of_reaches hreaches hx
    exact ⟨ending, seen, hmeaning, hseen, hallows⟩

/-- `ROL` of AX by an immediate. -/
def rolAx (count : BitVec 64) : AluInstruction where
  address := 0x1000
  opcode := .rolRegImm
  bytes := [0x66, 0xC1, 0xC0, count.setWidth 8]
  length := 4
  operands := [.register .rax 16, .immediate count 8]

theorem implements_rolAx_fifteen : Decoded (rolAx 15) ∧ Implements (rolAx 15) := by
  refine ⟨trivial, (implements_iff (rolAx 15) trivial).mpr ?_⟩
  rintro ⟨r, count, size, -, hoperands, hcount⟩
  obtain ⟨-, rfl, -⟩ : Register.rax = r ∧ (15 : BitVec 64) = count ∧ 8 = size := by
    simpa [rolAx] using hoperands
  exact absurd hcount (by decide)

theorem not_implements_rolAx_sixteen : Decoded (rolAx 16) ∧ ¬Implements (rolAx 16) :=
  ⟨trivial, not_implements ⟨.rax, 16, 8, rfl, rfl, rfl⟩⟩

end X86

end Rosa
