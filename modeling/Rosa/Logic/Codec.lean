import Rosa.Logic.Computation

/-!
# Little-endian words and readers

A word is written as its bytes, the low one first, and read back by or-ing the shifted
bytes. A reader is a computation on the bytes that are left. `Reads` says that it takes
exactly the given bytes and returns a value, whatever follows them, and `Rejects` that it
throws on them; both have a rule for sequencing, so a round trip is proved along the
structure of the reader.
-/

namespace Rosa

/-- A byte. -/
abbrev Byte := BitVec 8

/-! ## Words -/

/-- The `n` bytes of a word, the low one first. -/
def littleEndian {w : Nat} (n : Nat) (value : BitVec w) : List Byte :=
  (List.range n).map fun i => (value >>> (8 * i)).setWidth 8

/-- The word in the first `n` bytes. -/
def ofLittleEndian (w n : Nat) (bytes : List Byte) : BitVec w :=
  (List.range n).foldl (fun value i => value ||| ((bytes.getD i 0).setWidth w <<< (8 * i))) 0

@[simp] theorem length_littleEndian {w n : Nat} (value : BitVec w) :
    (littleEndian n value).length = n := by
  simp [littleEndian]

theorem length_flatMap_littleEndian {w n : Nat} (words : List (BitVec w)) :
    (words.flatMap (littleEndian n)).length = words.length * n := by
  induction words with
  | nil => exact (Nat.zero_mul n).symm
  | cons word words ih =>
    rw [List.flatMap_cons, List.length_append, length_littleEndian, ih, List.length_cons,
      Nat.succ_mul, Nat.add_comm]

theorem getD_littleEndian {w n i : Nat} (value : BitVec w) (h : i < n) :
    (littleEndian n value).getD i 0 = (value >>> (8 * i)).setWidth 8 := by
  simp [littleEndian, List.getD, h]

theorem getLsbD_ofLittleEndian {w : Nat} (bytes : List Byte) (n : Nat) {j : Nat}
    (hj : j < w) : (ofLittleEndian w n bytes).getLsbD j =
      (decide (j < 8 * n) && (bytes.getD (j / 8) 0).getLsbD (j % 8)) := by
  unfold ofLittleEndian
  induction n with
  | zero => simp
  | succ n ih =>
    rw [List.range_succ, List.foldl_append, List.foldl_cons, List.foldl_nil, BitVec.getLsbD_or, ih]
    simp only [BitVec.getLsbD_shiftLeft, BitVec.getLsbD_setWidth, hj, decide_true, Bool.true_and]
    rcases Nat.lt_trichotomy (j / 8) n with h | h | h
    · have h1 : j < 8 * n := by omega
      have h2 : j < 8 * (n + 1) := by omega
      simp [h1, h2]
    · have h1 : ¬j < 8 * n := by omega
      have h2 : j < 8 * (n + 1) := by omega
      have h3 : j - 8 * n = j % 8 := by omega
      have h4 : j % 8 < w := by omega
      simp [h1, h2, h3, h4, h]
    · have h1 : ¬j < 8 * n := by omega
      have h2 : ¬j < 8 * (n + 1) := by omega
      have h3 : 8 ≤ j - 8 * n := by omega
      simp [h1, h2, BitVec.getLsbD_of_ge _ _ h3]

theorem ofLittleEndian_littleEndian {w n : Nat} (hw : w ≤ 8 * n) (value : BitVec w) :
    ofLittleEndian w n (littleEndian n value) = value := by
  apply BitVec.eq_of_getLsbD_eq
  intro j hj
  have h1 : j / 8 < n := by omega
  have h2 : j < 8 * n := by omega
  have h3 : j % 8 < 8 := Nat.mod_lt _ (by omega)
  have h4 : 8 * (j / 8) + j % 8 = j := Nat.div_add_mod j 8
  rw [getLsbD_ofLittleEndian _ _ hj, getD_littleEndian _ h1]
  simp [h2, h3, h4]

theorem littleEndian_ofLittleEndian {w n : Nat} (hw : 8 * n ≤ w) {bytes : List Byte}
    (hlength : bytes.length = n) : littleEndian n (ofLittleEndian w n bytes) = bytes := by
  refine List.ext_getElem (by simp [hlength]) fun i hi hi' => ?_
  rw [length_littleEndian] at hi
  apply BitVec.eq_of_getLsbD_eq
  intro j hj
  simp only [littleEndian, List.getElem_map, List.getElem_range, BitVec.getLsbD_setWidth,
    BitVec.getLsbD_ushiftRight, getLsbD_ofLittleEndian bytes n (show 8 * i + j < w by omega),
    show (8 * i + j) / 8 = i by omega, show (8 * i + j) % 8 = j by omega, hj,
    show 8 * i + j < 8 * n by omega, decide_true, Bool.true_and]
  simp [List.getD, hi']

/-- Only the first `n` bytes are read. -/
theorem ofLittleEndian_congr {w n : Nat} {bytes bytes' : List Byte}
    (h : ∀ i < n, bytes.getD i 0 = bytes'.getD i 0) :
    ofLittleEndian w n bytes = ofLittleEndian w n bytes' := by
  apply BitVec.eq_of_getLsbD_eq
  intro j hj
  rw [getLsbD_ofLittleEndian _ _ hj, getLsbD_ofLittleEndian _ _ hj]
  by_cases hn : j < 8 * n
  · rw [h (j / 8) (by omega)]
  · simp [hn]

/-! ## Readers -/

/-- A reader : a computation on the bytes that are left. -/
abbrev Reader (ε α : Type) := Computation (List Byte) ε α

namespace Reader

open Rosa.Computation

variable {ε α β : Type}

/-- Take `n` bytes, or throw if there are not enough. -/
def takeBytes (e : ε) (n : Nat) : Reader ε (List Byte) := fun bytes =>
  if bytes.length < n then (.error e, bytes) else (.ok (bytes.take n), bytes.drop n)

/-- Take a word of `n` bytes. -/
def takeWord (e : ε) (w n : Nat) : Reader ε (BitVec w) := do
  let bytes ← takeBytes e n
  pure (ofLittleEndian w n bytes)

/-- Read `n` times. -/
def takeMany (x : Reader ε α) : Nat → Reader ε (List α)
  | 0 => pure []
  | n + 1 => do
    let a ← x
    let rest ← takeMany x n
    pure (a :: rest)

/-- The reader takes exactly these bytes and returns the value. -/
def Reads (x : Reader ε α) (bytes : List Byte) (value : α) : Prop :=
  ∀ rest, x (bytes ++ rest) = (.ok value, rest)

/-- The reader throws on these bytes. -/
def Rejects (x : Reader ε α) (bytes : List Byte) : Prop :=
  ∀ rest, ∃ e left, x (bytes ++ rest) = (.error e, left)

theorem Reads.pure (a : α) : Reads (Pure.pure a : Reader ε α) [] a := fun _ => rfl

theorem Reads.bind {x : Reader ε α} {f : α → Reader ε β} {bytes bytes' : List Byte} {a : α}
    {b : β} (hx : Reads x bytes a) (hf : Reads (f a) bytes' b) :
    Reads (x >>= f) (bytes ++ bytes') b := by
  intro rest
  rw [List.append_assoc, bind_ok (hx _)]
  exact hf rest

theorem Reads.bind_rejects {x : Reader ε α} {f : α → Reader ε β} {bytes bytes' : List Byte}
    {a : α} (hx : Reads x bytes a) (hf : Rejects (f a) bytes') :
    Rejects (x >>= f) (bytes ++ bytes') := by
  intro rest
  rw [List.append_assoc, bind_ok (hx _)]
  exact hf rest

theorem Rejects.bind {x : Reader ε α} {f : α → Reader ε β} {bytes : List Byte}
    (hx : Rejects x bytes) : Rejects (x >>= f) bytes := by
  intro rest
  obtain ⟨e, left, h⟩ := hx rest
  exact ⟨e, left, bind_error h⟩

/-- Throwing early is throwing on more bytes. -/
theorem Rejects.append {x : Reader ε α} {bytes bytes' : List Byte} (hx : Rejects x bytes) :
    Rejects x (bytes ++ bytes') := by
  intro rest
  rw [List.append_assoc]
  exact hx _

/-- With nothing after them, the reader throws on the bytes. -/
theorem Rejects.error {x : Reader ε α} {bytes : List Byte} (hx : Rejects x bytes) :
    ∃ e, (x bytes).1 = .error e := by
  obtain ⟨e, left, h⟩ := hx []
  rw [List.append_nil] at h
  exact ⟨e, by rw [h]⟩

theorem Rejects.raise {e : ε} {bytes : List Byte} :
    Rejects (Computation.raise e : Reader ε α) bytes := fun rest => ⟨e, bytes ++ rest, rfl⟩

theorem Rejects.raiseIf_bind {e : ε} {condition : Bool} {f : Unit → Reader ε β}
    {bytes : List Byte} (h : condition = true) :
    Rejects (Computation.raiseIf condition e >>= f) bytes := by
  subst h
  exact fun rest => ⟨e, bytes ++ rest, rfl⟩

theorem Reads.raiseIf_bind {e : ε} {condition : Bool} {f : Unit → Reader ε β}
    {bytes : List Byte} {b : β} (h : condition = false) (hf : Reads (f ()) bytes b) :
    Reads (Computation.raiseIf condition e >>= f) bytes b := by
  subst h
  exact hf

theorem Reads.takeBytes {e : ε} {n : Nat} {bytes : List Byte} (h : bytes.length = n) :
    Reads (takeBytes e n) bytes bytes := by
  intro rest
  subst h
  simp [Reader.takeBytes]

theorem Reads.takeWord {e : ε} {w n : Nat} (hw : w ≤ 8 * n) (value : BitVec w) :
    Reads (takeWord e w n) (littleEndian n value) value := by
  intro rest
  rw [Reader.takeWord, bind_ok (Reads.takeBytes (length_littleEndian value) rest),
    ofLittleEndian_littleEndian hw]
  rfl

theorem Reads.takeMany {x : Reader ε α} {encode : α → List Byte} :
    ∀ {values : List α}, (∀ a ∈ values, Reads x (encode a) a) →
      Reads (takeMany x values.length) (values.flatMap encode) values
  | [], _ => Reads.pure []
  | a :: values, h => by
    have hrest : Reads (Reader.takeMany x values.length) (values.flatMap encode) values :=
      Reads.takeMany fun b hb => h b (List.mem_cons_of_mem _ hb)
    intro rest
    rw [List.flatMap_cons, List.append_assoc, List.length_cons, Reader.takeMany,
      bind_ok (h a (by simp) _), bind_ok (hrest rest)]
    rfl

/-! ### What was read

`Parses` is the converse of `Reads` : whatever the bytes are, a reader that returns has
taken some of them from the front, in a relation to the value. -/

/-- What the reader returns is in the relation to the bytes it took. -/
def Parses (x : Reader ε α) (R : List Byte → α → Prop) : Prop :=
  ∀ bytes, Post x bytes (fun a rest => ∃ taken, bytes = taken ++ rest ∧ R taken a) fun _ _ => True

theorem Parses.mono {x : Reader ε α} {R R' : List Byte → α → Prop} (h : Parses x R)
    (hR : ∀ taken a, R taken a → R' taken a) : Parses x R' := fun bytes =>
  (h bytes).mono (fun _ _ ⟨taken, htaken, hr⟩ => ⟨taken, htaken, hR taken _ hr⟩) fun _ _ _ => trivial

theorem Parses.pure {a : α} {R : List Byte → α → Prop} (h : R [] a) :
    Parses (Pure.pure a : Reader ε α) R := fun _ => Post.pure ⟨[], rfl, h⟩

theorem Parses.raise {e : ε} {R : List Byte → α → Prop} :
    Parses (Computation.raise e : Reader ε α) R := fun _ => Post.raise trivial

theorem Parses.bind {x : Reader ε α} {f : α → Reader ε β} {R : List Byte → α → Prop}
    {S : List Byte → β → Prop} (hx : Parses x R)
    (hf : ∀ a taken, R taken a → Parses (f a) fun taken' b => S (taken ++ taken') b) :
    Parses (x >>= f) S := by
  intro bytes
  refine Post.bind ((hx bytes).mono (fun a rest ⟨taken, htaken, hr⟩ => ?_) fun _ _ _ => trivial)
  refine (hf a taken hr rest).mono (fun b rest' ⟨taken', htaken', hs⟩ => ?_) fun _ _ _ => trivial
  exact ⟨taken ++ taken', by rw [htaken, htaken', List.append_assoc], hs⟩

theorem Parses.raiseIf_bind {e : ε} {condition : Bool} {f : Unit → Reader ε β}
    {R : List Byte → β → Prop} (h : condition = false → Parses (f ()) R) :
    Parses (Computation.raiseIf condition e >>= f) R := by
  cases condition with
  | false => exact h rfl
  | true => exact fun bytes => Post.bind (Post.raise trivial)

theorem Parses.takeBytes {e : ε} {n : Nat} :
    Parses (takeBytes e n) fun taken bytes => taken = bytes ∧ bytes.length = n := by
  intro bytes
  rcases Nat.lt_or_ge bytes.length n with h | h
  · simp [Post, Reader.takeBytes, h]
  · simp only [Post, Reader.takeBytes, Nat.not_lt.mpr h, if_false]
    exact ⟨bytes.take n, (List.take_append_drop n bytes).symm, rfl, by simp [h]⟩

theorem Parses.takeWord {e : ε} {w n : Nat} (hw : w = 8 * n) :
    Parses (takeWord e w n) fun taken value => taken = littleEndian n value := by
  refine Parses.takeBytes.bind fun bytes taken ⟨htaken, hlength⟩ => Parses.pure ?_
  rw [List.append_nil, littleEndian_ofLittleEndian hw.ge hlength, htaken]

theorem Parses.takeMany {x : Reader ε α} {encode : α → List Byte}
    (hx : Parses x fun taken a => taken = encode a) : ∀ n,
    Parses (takeMany x n) fun taken values => taken = values.flatMap encode ∧ values.length = n
  | 0 => Parses.pure ⟨rfl, rfl⟩
  | n + 1 => by
    refine hx.bind fun a taken htaken => ?_
    refine (Parses.takeMany hx n).bind fun values taken' ⟨htaken', hlength⟩ => Parses.pure ?_
    exact ⟨by rw [htaken, htaken', List.append_nil, List.flatMap_cons], by simp [hlength]⟩

end Reader

end Rosa
