import Rosa.Guest.WordReads

/-!
# The startup stack

`guest/StartupStack.cpp`. The strings of the process stand at the top of its stack, the
first one lowest; below them, aligned, stand the words the entry point reads : the header
of the main executable, if it is asked for, the count of the arguments, and the three
vectors of pointers to the strings, each with a zero at its end. All of it is composed on
the host before the stack is mapped, so that a throw leaves the space as it was
(`build_decodes`).

The host composes bytes (`arrange`); that the guest reads the words and strings back from
them is a property of the space after the write.
-/

namespace Rosa

namespace StartupStackBuilder

open AddressSpace Rosa.Computation

/-! ## The builder -/

/-- `InitialStack`. -/
structure InitialStack where
  base : Nat
  size : Nat
  stackPointer : Nat

/-- `checkedAdd`. -/
def checkedAdd (lhs rhs : Nat) (description : String) : Access Nat := do
  failIf (2 ^ 64 - 1 - rhs < lhs) (description ++ " count overflows")
  pure (lhs + rhs)

/-- `checkedMultiply`. -/
def checkedMultiply (lhs rhs : Nat) (description : String) : Access Nat := do
  failIf (lhs != 0 && (2 ^ 64 - 1) / lhs < rhs) (description ++ " size overflows")
  pure (lhs * rhs)

/-- `reserveString` : the cursor after it, which is the address of the string. -/
def reserveString (base cursor : Nat) (string : List Byte) : Access Nat := do
  failIf (string.length == 2 ^ 64 - 1) "initial guest stack string size overflows"
  let byteCount := string.length + 1
  failIf (cursor < base || cursor - base < byteCount)
    "initial guest stack does not have room for strings"
  pure (cursor - byteCount)

/-- `reserveStrings` : the addresses and the cursor; the last string is the first to be placed. -/
def reserveStrings (base cursor : Nat) : List (List Byte) → Access (List Nat × Nat)
  | [] => pure ([], cursor)
  | string :: strings => do
    let (addresses, cursor) ← reserveStrings base cursor strings
    let cursor ← reserveString base cursor string
    pure (cursor :: addresses, cursor)

/-- `copyString`. -/
def copyString (payload : HostVector Byte) (payloadBase destination : Nat) (string : List Byte) :
    Access (HostVector Byte) := do
  failIf (destination < payloadBase) "initial guest stack string precedes payload"
  let offset := destination - payloadBase
  failIf (payload.size < offset) "initial guest stack string offset exceeds payload"
  failIf (string.length == 2 ^ 64 - 1 || payload.size - offset < string.length + 1)
    "initial guest stack string exceeds payload"
  pure ⟨payload.size, overwrite payload.get offset (string ++ [0])⟩

/-- The loop of `copyStrings`. -/
def copyEach (payload : HostVector Byte) (payloadBase : Nat) :
    List (List Byte) → List Nat → Access (HostVector Byte)
  | string :: strings, destination :: destinations => do
    let payload ← copyString payload payloadBase destination string
    copyEach payload payloadBase strings destinations
  | _, _ => pure payload

/-- `copyStrings`. -/
def copyStrings (payload : HostVector Byte) (payloadBase : Nat) (strings : List (List Byte))
    (destinations : List Nat) : Access (HostVector Byte) := do
  failIf (strings.length != destinations.length) "initial guest stack string metadata differs"
  copyEach payload payloadBase strings destinations

/-- `writeU64`. -/
def writeU64 (payload : HostVector Byte) (offset : Nat) (value : BitVec 64) :
    Access (HostVector Byte) := do
  failIf (payload.size < offset || payload.size - offset < 8)
    "initial guest stack word exceeds payload"
  pure ⟨payload.size, overwrite payload.get offset (littleEndian 8 value)⟩

/-- The loop that writes the words, from the one at `index` on. -/
def writeWords (payload : HostVector Byte) (index : Nat) :
    List (BitVec 64) → Access (HostVector Byte)
  | [] => pure payload
  | word :: words => do
    let payload ← writeU64 payload (index * 8) word
    writeWords payload (index + 1) words

/-- How many words there are. -/
def countWords (mainExecutable : Option (BitVec 64)) (arguments environment apple : Nat) :
    Access Nat := do
  let wordCount := if mainExecutable.isSome then 1 else 0
  let wordCount ← checkedAdd wordCount 1 "initial guest stack word"
  let wordCount ← checkedAdd wordCount arguments "initial guest stack word"
  let wordCount ← checkedAdd wordCount 1 "initial guest stack word"
  let wordCount ← checkedAdd wordCount environment "initial guest stack word"
  let wordCount ← checkedAdd wordCount 1 "initial guest stack word"
  let wordCount ← checkedAdd wordCount apple "initial guest stack word"
  checkedAdd wordCount 1 "initial guest stack word"

/-- The words, from the lowest one on : `argc` and the vectors, after the header that `dyld` wants
first. -/
def startupWords (mainExecutable : Option (BitVec 64)) (argc : Nat)
    (argv envp apple : List (BitVec 64)) : List (BitVec 64) :=
  mainExecutable.toList ++ BitVec.ofNat 64 argc :: argv ++ 0 :: envp ++ 0 :: apple ++ [0]

/-- The value with its low four bits cleared. -/
def alignedDown (value : Nat) : Nat := (BitVec.ofNat 64 value &&& ~~~0xF#64).toNat

/-- The part of `build` before the mapping : the stack pointer and the bytes from it to the top. -/
def arrange (base size : Nat) (arguments environment apple : List (List Byte))
    (mainExecutable : Option (BitVec 64)) : Access (Nat × HostVector Byte) := do
  failIf arguments.isEmpty "initial Darwin guest stack requires argv[0]"
  failIf (2 ^ 64 - 1 - size < base) "initial guest stack range overflows"
  let top := base + size
  let (appleAddresses, cursor) ← reserveStrings base top apple
  let (environmentAddresses, cursor) ← reserveStrings base cursor environment
  let (argumentAddresses, cursor) ← reserveStrings base cursor arguments
  let _ ← countWords mainExecutable argumentAddresses.length environmentAddresses.length
    appleAddresses.length
  let words := startupWords mainExecutable arguments.length
    (argumentAddresses.map (BitVec.ofNat 64)) (environmentAddresses.map (BitVec.ofNat 64))
    (appleAddresses.map (BitVec.ofNat 64))
  let wordBytes ← checkedMultiply words.length 8 "initial guest stack word"
  failIf (cursor < base || cursor - base < wordBytes)
    "initial guest stack does not have room for pointer vectors"
  let stackPointer := alignedDown (cursor - wordBytes)
  failIf (stackPointer < base) "initial guest stack alignment underflows mapping"
  failIf (2 ^ 64 - 1 < top - stackPointer) "initial guest stack payload size overflows"
  let payload ← writeWords ⟨top - stackPointer, fun _ => 0⟩ 0 words
  let payload ← copyStrings payload stackPointer arguments argumentAddresses
  let payload ← copyStrings payload stackPointer environment environmentAddresses
  let payload ← copyStrings payload stackPointer apple appleAddresses
  pure (stackPointer, payload)

/-- The permissions of the stack. -/
def stackPermissions : Permission := { read := true, write := true }

/-- `StartupStackBuilder::build`; `refused` is the reason the host gives for refusing the memory. -/
def build (base size : Nat) (arguments environment apple : List (List Byte))
    (mainExecutable : Option (BitVec 64)) (refused : Option String) : Access InitialStack := do
  let (stackPointer, payload) ← arrange base size arguments environment apple mainExecutable
  mapAnonymous base size stackPermissions stackPermissions "guest stack" refused
  AddressSpace.writeBytes stackPointer (bytesAt payload.get 0 payload.size)
  pure ⟨base, size, stackPointer⟩

variable {s s' : AddressSpace} {base size cursor low : Nat} {memory : Nat → Byte}
  {arguments environment apple : List (List Byte)} {mainExecutable : Option (BitVec 64)}

/-! ## Packed strings -/

/-- The strings one after the other, each with its end. -/
def packedBytes (strings : List (List Byte)) : List Byte := strings.flatMap (· ++ [0])

/-- Where the strings are that are packed from `low` on. -/
def addressesFrom (low : Nat) : List (List Byte) → List Nat
  | [] => []
  | string :: strings => low :: addressesFrom (low + (string.length + 1)) strings

@[simp] theorem packedBytes_nil : packedBytes [] = [] := rfl

@[simp] theorem packedBytes_cons (string : List Byte) (strings : List (List Byte)) :
    packedBytes (string :: strings) = (string ++ [0]) ++ packedBytes strings := rfl

theorem packedBytes_append (first second : List (List Byte)) :
    packedBytes (first ++ second) = packedBytes first ++ packedBytes second := by
  simp [packedBytes]

@[simp] theorem length_addressesFrom :
    ∀ (low : Nat) (strings : List (List Byte)), (addressesFrom low strings).length = strings.length
  | _, [] => rfl
  | low, string :: strings => by simp [addressesFrom, length_addressesFrom]

theorem addressesFrom_append : ∀ (low : Nat) (first second : List (List Byte)),
    addressesFrom low (first ++ second) =
      addressesFrom low first ++ addressesFrom (low + (packedBytes first).length) second
  | low, [], second => by simp [addressesFrom]
  | low, string :: first, second => by
    simp only [List.cons_append, addressesFrom, addressesFrom_append, packedBytes_cons,
      List.length_append, List.length_cons, List.length_nil]
    rw [Nat.add_assoc low]

theorem bytesAt_injective_append {a n : Nat} {left right : List Byte} (hl : left.length = n)
    (h : bytesAt memory a (n + right.length) = left ++ right) :
    bytesAt memory a n = left ∧ bytesAt memory (a + n) right.length = right := by
  rw [← bytesAt_append] at h
  exact List.append_inj h (by simp [bytesAt, hl])

/-- A copy of the string with its end is at the address, in a range of the memory. -/
structure Copied (memory : Nat → Byte) (low high address : Nat) (string : List Byte) : Prop where
  bytes : bytesAt memory address (string.length + 1) = string ++ [0]
  within : low ≤ address
  below : address + (string.length + 1) ≤ high
  ends : 0 ∉ string

/-- Bytes that are packed strings have each of the strings at its address. -/
theorem forall₂_addressesFrom {high : Nat} : ∀ {start : Nat} {strings : List (List Byte)},
    bytesAt memory start (packedBytes strings).length = packedBytes strings → low ≤ start →
      start + (packedBytes strings).length ≤ high → (∀ string ∈ strings, 0 ∉ string) →
        List.Forall₂ (Copied memory low high) (addressesFrom start strings) strings
  | _, [], _, _, _, _ => .nil
  | start, string :: strings, h, hlow, hhigh, hends => by
    rw [packedBytes_cons, List.length_append] at h hhigh
    have hlength : (string ++ [(0 : Byte)]).length = string.length + 1 := by simp
    rw [hlength] at h hhigh
    obtain ⟨hfirst, hrest⟩ := bytesAt_injective_append hlength h
    refine .cons ⟨hfirst, hlow, by omega, hends string List.mem_cons_self⟩ ?_
    exact forall₂_addressesFrom hrest (by omega) (by omega)
      fun other hmem => hends other (List.mem_cons_of_mem _ hmem)

/-- Bytes that are words have each of the words in its place. -/
theorem bytesAt_words : ∀ {low : Nat} {words : List (BitVec 64)},
    bytesAt memory low (words.flatMap (littleEndian 8)).length = words.flatMap (littleEndian 8) →
      ∀ j (hj : j < words.length), bytesAt memory (low + 8 * j) 8 = littleEndian 8 words[j]
  | _, [], _, j, hj => absurd hj (Nat.not_lt_zero j)
  | low, word :: words, h, j, hj => by
    rw [List.flatMap_cons, List.length_append, length_littleEndian] at h
    obtain ⟨hfirst, hrest⟩ := bytesAt_injective_append (length_littleEndian word) h
    cases j with
    | zero => exact hfirst
    | succ j =>
      have := bytesAt_words hrest j (by simpa using hj)
      rw [show low + 8 * (j + 1) = low + 8 + 8 * j by omega]
      exact this

/-! ## The layout -/

/-- What `build` throws for lack of room. -/
def roomErrors : List AccessError :=
  [.thrown "initial guest stack does not have room for strings",
    .thrown "initial guest stack does not have room for pointer vectors",
    .thrown "initial guest stack alignment underflows mapping"]

/-- A throw that changes nothing, and that speaks of room only if there is none. -/
def Declines (s : AddressSpace) (room : Prop) (e : AccessError) (s' : AddressSpace) : Prop :=
  s' = s ∧ (e ∈ roomErrors → ¬room)

variable {room : Prop} {α : Type}

theorem failIf_declines {condition : Bool} {message : String} {f : Unit → Access α}
    {Q : α → AddressSpace → Prop}
    (hroom : condition = true → .thrown message ∈ roomErrors → ¬room)
    (h : condition = false → Post (f ()) s Q (Declines s room)) :
    Post (failIf condition message >>= f) s Q (Declines s room) :=
  Post.bind (Post.raiseIf (fun hc => ⟨rfl, hroom hc⟩) h)

theorem checkedAdd_spec {lhs rhs : Nat} {description : String}
    (hmessage : .thrown (description ++ " count overflows") ∉ roomErrors) :
    Post (checkedAdd lhs rhs description) s (fun sum s' => s' = s ∧ sum = lhs + rhs)
      (Declines s room) :=
  failIf_declines (fun _ h => absurd h hmessage) fun _ => ⟨rfl, rfl⟩

theorem checkedMultiply_spec {lhs rhs : Nat} {description : String}
    (hmessage : .thrown (description ++ " size overflows") ∉ roomErrors) :
    Post (checkedMultiply lhs rhs description) s (fun product s' => s' = s ∧ product = lhs * rhs)
      (Declines s room) :=
  failIf_declines (fun _ h => absurd h hmessage) fun _ => ⟨rfl, rfl⟩

theorem countWords_spec {argc envc applec : Nat} :
    Post (countWords mainExecutable argc envc applec) s (fun _ s' => s' = s) (Declines s room) := by
  have hadd (lhs rhs : Nat) {f : Nat → Access Nat}
      (h : Post (f (lhs + rhs)) s (fun _ s' => s' = s) (Declines s room)) :
      Post (checkedAdd lhs rhs "initial guest stack word" >>= f) s (fun _ s' => s' = s)
        (Declines s room) := by
    refine Post.bind (Post.mono (checkedAdd_spec (by simp [roomErrors])) ?_ fun _ _ he => he)
    rintro _ _ ⟨rfl, rfl⟩
    exact h
  unfold countWords
  refine hadd _ _ (hadd _ _ (hadd _ _ (hadd _ _ (hadd _ _ (hadd _ _ ?_)))))
  exact Post.mono (checkedAdd_spec (by simp [roomErrors])) (fun _ _ h => h.1) fun _ _ he => he

theorem reserveString_spec {string : List Byte}
    (hroom : room → base + (string.length + 1) ≤ cursor) :
    Post (reserveString base cursor string) s
      (fun address s' => s' = s ∧ base ≤ address ∧ address + (string.length + 1) = cursor)
      (Declines s room) := by
  unfold reserveString
  refine failIf_declines (fun _ h => absurd h (by simp [roomErrors])) fun _ => ?_
  refine failIf_declines (fun hc _ hr => ?_) fun hc => ?_
  · have := hroom hr
    simp at hc
    omega
  · simp at hc
    exact ⟨rfl, by omega, by omega⟩

/-- The strings are packed below the cursor, if the stack has room for them. -/
theorem reserveStrings_spec : ∀ {strings : List (List Byte)}, base ≤ cursor →
    (room → base + (packedBytes strings).length ≤ cursor) →
    Post (reserveStrings base cursor strings) s
      (fun placed s' => s' = s ∧ base ≤ placed.2 ∧
        placed.2 + (packedBytes strings).length = cursor ∧
        placed.1 = addressesFrom placed.2 strings)
      (Declines s room)
  | [], hle, _ => ⟨rfl, hle, by simp, rfl⟩
  | string :: strings, hle, hroom => by
    have hlength : (packedBytes (string :: strings)).length =
        string.length + 1 + (packedBytes strings).length := by simp; omega
    rw [hlength] at hroom ⊢
    unfold reserveStrings
    refine Post.bind (Post.mono (reserveStrings_spec hle fun hr => ?_) ?_ fun _ _ he => he)
    · have := hroom hr
      omega
    · rintro ⟨addresses, low⟩ _ ⟨rfl, hlow, htop, haddresses⟩
      dsimp only at hlow htop haddresses ⊢
      refine Post.bind (Post.mono (reserveString_spec fun hr => ?_) ?_ fun _ _ he => he)
      · have := hroom hr
        omega
      · rintro address _ ⟨rfl, hbase, haddress⟩
        refine ⟨rfl, hbase, by omega, ?_⟩
        rw [haddresses, addressesFrom, haddress]

/-- The words fill the payload from `index` on. -/
theorem writeWords_spec : ∀ {words : List (BitVec 64)} {payload : HostVector Byte} {index : Nat},
    Post (writeWords payload index words) s
      (fun payload' s' => s' = s ∧ payload' = ⟨payload.size,
        overwrite payload.get (8 * index) (words.flatMap (littleEndian 8))⟩)
      (Declines s room)
  | [], payload, index => ⟨rfl, by simp [overwrite_nil]⟩
  | word :: words, payload, index => by
    unfold writeWords writeU64
    refine Post.bind (failIf_declines (fun _ h => absurd h (by simp [roomErrors])) fun _ => ?_)
    refine Post.pure (Post.mono writeWords_spec ?_ fun _ _ he => he)
    rintro payload' _ ⟨rfl, rfl⟩
    have := overwrite_append payload.get (8 * index) (littleEndian 8 word)
      (words.flatMap (littleEndian 8))
    rw [length_littleEndian] at this
    refine ⟨rfl, ?_⟩
    rw [List.flatMap_cons, ← this, Nat.mul_comm index 8,
      show 8 * (index + 1) = 8 * index + 8 by omega]

theorem copyEach_spec : ∀ {strings : List (List Byte)} {payload : HostVector Byte}
    {payloadBase low : Nat}, payloadBase ≤ low →
    Post (copyEach payload payloadBase strings (addressesFrom low strings)) s
      (fun payload' s' => s' = s ∧ payload' = ⟨payload.size,
        overwrite payload.get (low - payloadBase) (packedBytes strings)⟩)
      (Declines s room)
  | [], payload, payloadBase, low, _ => ⟨rfl, by simp [overwrite_nil]⟩
  | string :: strings, payload, payloadBase, low, hle => by
    unfold addressesFrom copyEach copyString
    refine Post.bind (failIf_declines (fun _ h => absurd h (by simp [roomErrors])) fun _ => ?_)
    refine failIf_declines (fun _ h => absurd h (by simp [roomErrors])) fun _ => ?_
    refine failIf_declines (fun _ h => absurd h (by simp [roomErrors])) fun _ => ?_
    refine Post.pure (Post.mono (copyEach_spec (by omega)) ?_ fun _ _ he => he)
    rintro payload' _ ⟨rfl, rfl⟩
    have := overwrite_append payload.get (low - payloadBase) (string ++ [0]) (packedBytes strings)
    rw [List.length_append, List.length_singleton] at this
    refine ⟨rfl, ?_⟩
    have hnext : low + (string.length + 1) - payloadBase =
        low - payloadBase + (string.length + 1) := by omega
    rw [packedBytes_cons, ← this, hnext]

/-- The strings are copied to where they are packed. -/
theorem copyStrings_spec {strings : List (List Byte)} {payload : HostVector Byte}
    {payloadBase low : Nat} (hle : payloadBase ≤ low) :
    Post (copyStrings payload payloadBase strings (addressesFrom low strings)) s
      (fun payload' s' => s' = s ∧ payload' = ⟨payload.size,
        overwrite payload.get (low - payloadBase) (packedBytes strings)⟩)
      (Declines s room) :=
  failIf_declines (fun _ h => absurd h (by simp [roomErrors])) fun _ => copyEach_spec hle

theorem alignedDown_eq {value : Nat} (h : value < 2 ^ 64) :
    alignedDown value = value / 16 * 16 := by
  have hmask : BitVec.ofNat 64 value &&& ~~~0xF#64 = BitVec.ofNat 64 value >>> 4 <<< 4 := by
    refine BitVec.eq_of_getLsbD_eq fun i hi => ?_
    have hlow : (0xF#64).getLsbD i = decide (i < 4) := by
      have : ∀ i < 64, (0xF#64).getLsbD i = decide (i < 4) := by decide
      exact this i hi
    rw [BitVec.getLsbD_and, BitVec.getLsbD_not, hlow, BitVec.getLsbD_shiftLeft,
      BitVec.getLsbD_ushiftRight]
    by_cases h4 : i < 4
    · simp [h4]
    · simp [h4, hi, show 4 + (i - 4) = i by omega]
  rw [alignedDown, hmask, BitVec.toNat_shiftLeft, BitVec.toNat_ushiftRight, BitVec.toNat_ofNat,
    Nat.mod_eq_of_lt h, Nat.shiftLeft_eq, Nat.shiftRight_eq_div_pow]
  omega

/-- The pointers to strings that are packed from `low` on. -/
def pointersFrom (low : Nat) (strings : List (List Byte)) : List (BitVec 64) :=
  (addressesFrom low strings).map (BitVec.ofNat 64)

theorem pointersFrom_append (low : Nat) (first second : List (List Byte)) :
    pointersFrom low (first ++ second) =
      pointersFrom low first ++ pointersFrom (low + (packedBytes first).length) second := by
  rw [pointersFrom, addressesFrom_append, List.map_append, pointersFrom, pointersFrom]

@[simp] theorem length_pointersFrom (low : Nat) (strings : List (List Byte)) :
    (pointersFrom low strings).length = strings.length := by
  simp [pointersFrom]

theorem pointersFrom_cons (low : Nat) (string : List Byte) (strings : List (List Byte)) :
    pointersFrom low (string :: strings) =
      BitVec.ofNat 64 low :: pointersFrom (low + (string.length + 1)) strings := rfl

/-- The pointers point to the packed strings. -/
theorem le_of_mem_pointersFrom {p : BitVec 64} : ∀ {low : Nat} {strings : List (List Byte)},
    low + (packedBytes strings).length < 2 ^ 64 → p ∈ pointersFrom low strings → low ≤ p.toNat
  | _, [], _, h => absurd h List.not_mem_nil
  | low, string :: strings, hbelow, h => by
    simp only [packedBytes_cons, List.length_append, List.length_cons, List.length_nil] at hbelow
    rw [pointersFrom_cons] at h
    rcases List.mem_cons.mp h with rfl | h
    · rw [BitVec.toNat_ofNat, Nat.mod_eq_of_lt (by omega)]
    · have := le_of_mem_pointersFrom (by omega) h
      omega

/-- Each string ends before the next one begins. -/
theorem pairwise_pointersFrom : ∀ {low : Nat} {strings : List (List Byte)},
    low + (packedBytes strings).length < 2 ^ 64 →
      ((pointersFrom low strings).zip strings).Pairwise fun a b =>
        a.1.toNat + (a.2.length + 1) ≤ b.1.toNat
  | _, [], _ => .nil
  | low, string :: strings, hbelow => by
    simp only [packedBytes_cons, List.length_append, List.length_cons, List.length_nil] at hbelow
    have hrest : low + (string.length + 1) + (packedBytes strings).length < 2 ^ 64 := by omega
    rw [pointersFrom_cons, List.zip_cons_cons]
    refine .cons (fun b hb => ?_) (pairwise_pointersFrom hrest)
    have := le_of_mem_pointersFrom hrest (List.of_mem_zip hb).1
    rw [BitVec.toNat_ofNat, Nat.mod_eq_of_lt (by omega)]
    exact this

theorem pointersFrom_vectors (low : Nat) (arguments environment apple : List (List Byte)) :
    pointersFrom low arguments ++
        pointersFrom (low + (packedBytes arguments).length) environment ++
        pointersFrom (low + (packedBytes arguments).length + (packedBytes environment).length)
          apple =
      pointersFrom low (arguments ++ environment ++ apple) := by
  rw [pointersFrom_append, pointersFrom_append, packedBytes_append, List.length_append,
    Nat.add_assoc low]

/-- How many words there are. -/
def wordCount (arguments environment apple : List (List Byte))
    (mainExecutable : Option (BitVec 64)) : Nat :=
  mainExecutable.toList.length + arguments.length + environment.length + apple.length + 4

theorem length_startupWords {argc : Nat} {argv envp applev : List (BitVec 64)}
    (hargv : argv.length = arguments.length) (henvp : envp.length = environment.length)
    (happle : applev.length = apple.length) :
    (startupWords mainExecutable argc argv envp applev).length =
      wordCount arguments environment apple mainExecutable := by
  simp only [startupWords, wordCount, List.length_append, List.length_cons, List.length_nil]
  omega

/-- From some aligned address in the stack on there is room for the words, below strings that are
packed at the top. -/
def HasRoom (base size : Nat) (arguments environment apple : List (List Byte))
    (mainExecutable : Option (BitVec 64)) : Prop :=
  ∃ stackPointer, base ≤ stackPointer ∧ stackPointer % 16 = 0 ∧
    stackPointer + 8 * wordCount arguments environment apple mainExecutable +
      (packedBytes (arguments ++ environment ++ apple)).length ≤ base + size

/-- What `arrange` composes, with the strings packed from `low` on. -/
structure Arranged (base size : Nat) (arguments environment apple : List (List Byte))
    (mainExecutable : Option (BitVec 64)) (low stackPointer : Nat) (payload : HostVector Byte)
    (words : List (BitVec 64)) : Prop where
  below : base + size < 2 ^ 64
  within : base ≤ stackPointer
  aligned : stackPointer % 16 = 0
  room : stackPointer + 8 * words.length ≤ low
  top : low + (packedBytes (arguments ++ environment ++ apple)).length = base + size
  size : payload.size = base + size - stackPointer
  composed : words = startupWords mainExecutable arguments.length (pointersFrom low arguments)
    (pointersFrom (low + (packedBytes arguments).length) environment)
    (pointersFrom (low + (packedBytes arguments).length + (packedBytes environment).length) apple)
  contents : payload.get =
    overwrite (overwrite (fun _ => 0) 0 (words.flatMap (littleEndian 8))) (low - stackPointer)
      (packedBytes (arguments ++ environment ++ apple))

theorem arrange_spec (hsize : size < 2 ^ 64) :
    Post (arrange base size arguments environment apple mainExecutable) s
      (fun placed s' => s' = s ∧ ∃ low words, Arranged base size arguments environment apple
        mainExecutable low placed.1 placed.2 words)
      (Declines s (HasRoom base size arguments environment apple mainExecutable)) := by
  have hpacked : (packedBytes (arguments ++ environment ++ apple)).length =
      (packedBytes arguments).length + (packedBytes environment).length +
        (packedBytes apple).length := by
    rw [packedBytes_append, packedBytes_append, List.length_append, List.length_append]
  unfold arrange
  refine failIf_declines (fun _ h => absurd h (by simp [roomErrors])) fun _ => ?_
  refine failIf_declines (fun _ h => absurd h (by simp [roomErrors])) fun hbelow => ?_
  simp only [decide_eq_false_iff_not, not_lt] at hbelow
  dsimp only
  -- the strings, the last vector first
  refine Post.bind (Post.mono (reserveStrings_spec (Nat.le_add_right base size) ?_) ?_
    fun _ _ he => he)
  · rintro ⟨stackPointer, _, _, _⟩
    omega
  rintro ⟨appleAddresses, appleLow⟩ _ ⟨rfl, happleLow, happleTop, happle⟩
  dsimp only at happleLow happleTop happle ⊢
  refine Post.bind (Post.mono (reserveStrings_spec happleLow ?_) ?_ fun _ _ he => he)
  · rintro ⟨stackPointer, _, _, _⟩
    omega
  rintro ⟨environmentAddresses, environmentLow⟩ _ ⟨rfl, henvLow, henvTop, henv⟩
  dsimp only at henvLow henvTop henv ⊢
  refine Post.bind (Post.mono (reserveStrings_spec henvLow ?_) ?_ fun _ _ he => he)
  · rintro ⟨stackPointer, _, _, _⟩
    omega
  rintro ⟨argumentAddresses, low⟩ _ ⟨rfl, hlow, hargTop, harg⟩
  dsimp only at hlow hargTop harg ⊢
  refine Post.bind (Post.mono countWords_spec ?_ fun _ _ he => he)
  rintro _ _ rfl
  -- the words
  generalize hwords : startupWords mainExecutable arguments.length
    (argumentAddresses.map (BitVec.ofNat 64)) (environmentAddresses.map (BitVec.ofNat 64))
    (appleAddresses.map (BitVec.ofNat 64)) = words
  have hcount : words.length = wordCount arguments environment apple mainExecutable := by
    rw [← hwords]
    exact length_startupWords (by simp [harg]) (by simp [henv]) (by simp [happle])
  refine Post.bind (Post.mono (checkedMultiply_spec (by simp [roomErrors])) ?_ fun _ _ he => he)
  rintro _ _ ⟨rfl, rfl⟩
  refine failIf_declines (fun hc _ => ?_) fun hroom => ?_
  · rintro ⟨stackPointer, _, _, _⟩
    simp only [Bool.or_eq_true, decide_eq_true_eq] at hc
    omega
  simp only [Bool.or_eq_false_iff, decide_eq_false_iff_not, not_lt] at hroom
  rw [alignedDown_eq (show low - words.length * 8 < 2 ^ 64 by omega)]
  refine failIf_declines (fun hc _ => ?_) fun haligned => ?_
  · rintro ⟨stackPointer, _, _, _⟩
    simp only [decide_eq_true_eq] at hc
    omega
  simp only [decide_eq_false_iff_not, not_lt] at haligned
  generalize hpointer : (low - words.length * 8) / 16 * 16 = stackPointer at *
  refine failIf_declines (fun _ h => absurd h (by simp [roomErrors])) fun _ => ?_
  -- the bytes
  subst harg henv happle
  refine Post.bind (Post.mono writeWords_spec ?_ fun _ _ he => he)
  rintro _ _ ⟨rfl, rfl⟩
  refine Post.bind (Post.mono (copyStrings_spec (by omega)) ?_ fun _ _ he => he)
  rintro _ _ ⟨rfl, rfl⟩
  refine Post.bind (Post.mono (copyStrings_spec (by omega)) ?_ fun _ _ he => he)
  rintro _ _ ⟨rfl, rfl⟩
  refine Post.bind (Post.mono (copyStrings_spec (by omega)) ?_ fun _ _ he => he)
  rintro _ _ ⟨rfl, rfl⟩
  refine ⟨rfl, low, words, by omega, haligned, by omega, by omega, by omega, rfl, ?_, ?_⟩
  · rw [← hwords, pointersFrom, pointersFrom, pointersFrom, hargTop, henvTop]
  · rw [packedBytes_append, packedBytes_append, ← overwrite_append, ← overwrite_append]
    dsimp only
    have henvOffset : low - stackPointer + (packedBytes arguments).length =
        environmentLow - stackPointer := by omega
    have happleOffset : low - stackPointer +
        ((packedBytes arguments).length + (packedBytes environment).length) =
          appleLow - stackPointer := by omega
    rw [henvOffset, List.length_append, happleOffset]

/-! ## The mapping and its bytes -/

theorem validateNewMapping_declines {permissions maximumPermissions : Permission} :
    Post (validateNewMapping base size permissions maximumPermissions) s (fun _ _ => True)
      (Declines s room) := by
  have hother {message : String} (h : .thrown message ∉ roomErrors) {condition : Bool} :
      condition = true → .thrown message ∈ roomErrors → ¬room := fun _ hmem => absurd hmem h
  unfold validateNewMapping
  refine failIf_declines (hother (by simp [roomErrors])) fun _ => ?_
  refine failIf_declines (hother (by simp [roomErrors])) fun _ => ?_
  refine failIf_declines (hother (by simp [roomErrors])) fun _ => Post.bind (Post.get ?_)
  refine failIf_declines (hother (by simp [roomErrors])) fun _ => ?_
  exact Post.raiseIf (fun hc => ⟨rfl, hother (by simp [roomErrors]) hc⟩) fun _ => trivial

/-- A mapping of the stack that is installed has host memory of its own. -/
structure Mapped (s : AddressSpace) (base size : Nat) (m : Mapping) (s' : AddressSpace) : Prop
    where
  added : Added s m s'
  base : m.base = base
  size : m.size = size
  permissions : m.permissions = stackPermissions
  dense : m.readableBytes.size = 0
  file : ∃ file, m.fileBytes = some file

theorem mapAnonymous_declines (hi : Inv s) (hsize : size < 2 ^ 64) {refused : Option String} :
    Post (mapAnonymous base size stackPermissions stackPermissions "guest stack" refused) s
      (fun _ s' => ∃ m, Mapped s base size m s') (Declines s room) := by
  unfold mapAnonymous
  refine Post.bind (Post.mono (Post.and (validateNewMapping_spec hi hsize _ _)
    validateNewMapping_declines) ?_ fun _ _ h => h.2)
  rintro _ s1 ⟨⟨rfl, hfits⟩, -⟩
  rw [if_neg (by decide)]
  cases refused with
  | none =>
    refine ⟨{ base, size, permissions := stackPermissions, maximumPermissions := stackPermissions,
              fileBytes := some s1.fileCount, label := "guest stack" },
      ⟨hfits, rfl, .inl rfl, fun _ => .inl rfl, ?_⟩, rfl, rfl, rfl, rfl, _, rfl⟩
    exact .inr ⟨rfl, rfl, ⟨size, fun _ => 0⟩, by simp, rfl⟩
  | some reason =>
    refine ⟨rfl, fun hmem => ?_⟩
    -- the texts differ in their first letter
    have hfirst {text : String} (h : AccessError.thrown text =
        .thrown ("cannot reserve anonymous guest backing: " ++ reason)) :
        text.toList.head? = some 'c' := by
      rw [AccessError.thrown.inj h, String.toList_append]
      rfl
    rcases List.mem_cons.mp hmem with h | hmem
    · exact absurd (hfirst h.symm) (by decide)
    rcases List.mem_cons.mp hmem with h | hmem
    · exact absurd (hfirst h.symm) (by decide)
    exact absurd (hfirst (List.mem_singleton.mp hmem).symm) (by decide)

/-- A store into a mapping of a host file that has the bytes. -/
theorem storeChunk_returns (hi : Inv s) {i offset : Nat} {m : Mapping} {data : List Byte}
    {file : FileId} (hm : s.mappings[i]? = some m) (hfile : m.fileBytes = some file)
    (hfits : offset + data.length ≤ m.size) :
    Post (storeChunk i m offset data) s (fun _ s' => s' = storeBytes i m offset data s)
      fun _ _ => False := by
  have hbacking := ((hi.shaped m (List.mem_of_getElem? hm)).file file hfile).2
  unfold storeChunk
  rw [hfile]
  refine Post.bind (Post.get (Post.bind (Post.raiseIf (fun hc => ?_) fun _ => Post.modify rfl)))
  simp only [decide_eq_true_eq] at hc
  omega

/-- A write into one mapping that has a host file and no callback, in a space that may have a
reservation that was made accessible. -/
theorem writeBytes_single (hr : Orderly s) (hd : Depicts memory s.settled) {address i : Nat}
    {m : Mapping} {data : List Byte} {file : FileId} (hne : data ≠ [])
    (hf : Found s address data.length { write := true } i m) (hfile : m.fileBytes = some file)
    (hlazy : m.lazyFileTransform = none) :
    Post (AddressSpace.writeBytes address data) s
      (fun _ s' => Orderly s' ∧ Depicts (overwrite memory address data) s'.settled ∧
        s'.mappings = s.mappings)
      fun _ _ => False := by
  have hpos := List.length_pos_iff.mpr hne
  have hbase := hf.base
  have hlimit := hf.limit
  have hone : Found s address 1 { write := true } i m :=
    ⟨hf.index, hbase, by omega, hf.permitted⟩
  unfold AddressSpace.writeBytes
  rw [if_neg hne]
  refine Post.bind (Post.mono (find_returns hr.inv hone) ?_ fun _ _ h => h)
  rintro found s1 ⟨rfl, hcalm⟩
  dsimp only
  rw [if_pos (show data.length ≤ m.size - (address - m.base) by omega)]
  have hready : materializeFileBytes m (address - m.base) data.length = pure () := by
    unfold materializeFileBytes
    rw [hfile, hlazy]
  rw [hready]
  refine Post.bind (Post.pure ?_)
  have hr1 := hcalm.orderly hr
  have hd1 := (hcalm.sameMemory hr).depicts hd
  have hf1 := hf.of_mappings hcalm.touches.mappings_eq
  have hfits : address - m.base + data.length ≤ m.size := by omega
  refine Post.bind (Post.mono (storeChunk_returns hr1.inv hf1.index hfile hfits) ?_
    fun _ _ h => h)
  rintro _ _ rfl
  refine Post.modify ?_
  have hnone : ∀ k < data.length, s1.Ready m (address - m.base + k) := by
    intro k _ t ht
    rw [hlazy] at ht
    cases ht
  have htouch : Touches (fun _ => True) s1 (storeBytes i m (address - m.base) data s1) :=
    .single (.store hf1.index trivial hfits hnone)
  have hstored := followsWrites_depicts.stores ⟨hr1.inv.settled, hr1.lazyInv, hd1⟩ hf1.index hfits
    hnone
  rw [storeBytes_settled, show m.base + (address - m.base) = address by omega] at hstored
  obtain ⟨-, hlazyInv, hdepicts⟩ := hstored
  refine ⟨⟨bumped_inv (htouch.inv hr1.inv), hlazyInv.bump⟩, hdepicts, ?_⟩
  have hmappings : (storeBytes i m (address - m.base) data s1).mappings = s1.mappings := by
    unfold storeBytes
    rw [hfile]
  exact hmappings.trans hcalm.touches.mappings_eq

theorem Mapped.canLoad {m : Mapping} {s2 : AddressSpace} (h : Mapped s base size m s')
    (hi : Inv s2) (hmappings : s2.mappings = s'.mappings) {address : Nat} (hbase : base ≤ address)
    (hlimit : address < base + size) : s2.CanLoad address := by
  obtain ⟨hadded, rfl, rfl, hpermissions, hdense, file, hfile⟩ := h
  have hm : m ∈ s2.mappings := hmappings ▸ hadded.mem.mpr (.inl rfl)
  exact canLoad_of_plain hi hm (by rw [hpermissions]; rfl) hdense hadded.notLazy
    (.inl (by simp [hfile])) hbase hlimit

/-! ## Reading the stack -/

/-- What is read from the address on, up to the first zero, is the string. -/
structure CString (s : AddressSpace) (address : BitVec 64) (string : List Byte) : Prop where
  bytes : ∀ k (hk : k < string.length),
    string[k] ≠ 0 ∧ (AddressSpace.readU8 (address + BitVec.ofNat 64 k) s).1 = .ok string[k]
  ending : (AddressSpace.readU8 (address + BitVec.ofNat 64 string.length) s).1 = .ok 0

/-- From an aligned stack pointer in the stack on, the words are read, which have pointers to the
strings; no string overlaps another one or a word. -/
structure Decodes (s : AddressSpace) (base size : Nat)
    (arguments environment apple : List (List Byte)) (mainExecutable : Option (BitVec 64))
    (stackPointer : Nat) (argv envp applev : List (BitVec 64)) : Prop where
  aligned : stackPointer % 16 = 0
  within : base ≤ stackPointer ∧ stackPointer < base + size
  lengths : argv.length = arguments.length ∧ envp.length = environment.length ∧
    applev.length = apple.length
  words : ∀ j (hj : j < (startupWords mainExecutable arguments.length argv envp applev).length),
    (AddressSpace.readU64 (BitVec.ofNat 64 (stackPointer + 8 * j)) s).1 =
      .ok (startupWords mainExecutable arguments.length argv envp applev)[j]
  strings : List.Forall₂ (CString s) (argv ++ envp ++ applev) (arguments ++ environment ++ apple)
  above : ∀ p ∈ argv ++ envp ++ applev, p ≠ 0 ∧ stackPointer +
    8 * (startupWords mainExecutable arguments.length argv envp applev).length ≤ p.toNat
  apart : ((argv ++ envp ++ applev).zip (arguments ++ environment ++ apple)).Pairwise
    fun a b => a.1.toNat + (a.2.length + 1) ≤ b.1.toNat

/-- A copy in memory that can be read is a string of the language. -/
theorem Copied.cString (hr : Orderly s) (hd : Depicts memory s.settled) {high address : Nat}
    {string : List Byte} (h : Copied memory low high address string) (hhigh : high < 2 ^ 64)
    (hload : ∀ a, low ≤ a → a < high → s.CanLoad a) :
    CString s (BitVec.ofNat 64 address) string := by
  have hlow := h.within
  have hbelow := h.below
  have hread {k : Nat} {byte : Byte} (hk : k < string.length + 1)
      (hbyte : (string ++ [0])[k]? = some byte) :
      (AddressSpace.readU8 (BitVec.ofNat 64 address + BitVec.ofNat 64 k) s).1 = .ok byte := by
    have hsum : (BitVec.ofNat 64 address + BitVec.ofNat 64 k).toNat = address + k := by
      rw [← BitVec.ofNat_add, BitVec.toNat_ofNat, Nat.mod_eq_of_lt (by omega)]
    refine (readU8_ok_iff hr hd).mpr ⟨?_, ?_⟩
    · rw [hsum]
      exact hload _ (by omega) (by omega)
    · rw [← h.bytes] at hbyte
      rw [hsum]
      simpa [bytesAt, hk] using hbyte.symm
  refine ⟨fun k hk => ⟨fun hzero => h.ends (hzero ▸ List.getElem_mem hk), ?_⟩, ?_⟩
  · exact hread (by omega) ((List.getElem?_append_left hk).trans (List.getElem?_eq_getElem hk))
  · exact hread (by omega) (by simp)

theorem bytesAt_overwrite_below {contents : Nat → Byte} {offset start n : Nat} {data : List Byte}
    (h : start + n ≤ offset) :
    bytesAt (overwrite contents offset data) start n = bytesAt contents start n := by
  refine List.map_congr_left fun k hk => overwrite_of_not_mem fun j _ => ?_
  have := List.mem_range.mp hk
  omega

theorem bytesAt_overwrite_within {contents memory : Nat → Byte} {address size start n : Nat}
    (h : start + n ≤ size) :
    bytesAt (overwrite memory address (bytesAt contents 0 size)) (address + start) n =
      bytesAt contents start n := by
  refine List.map_congr_left fun k hk => ?_
  have hlength : start + k < (bytesAt contents 0 size).length := by
    have := List.mem_range.mp hk
    simp [bytesAt]
    omega
  rw [Nat.add_assoc, overwrite_of_mem hlength]
  simp [bytesAt]

section

variable {stackPointer : Nat} {payload : HostVector Byte} {words : List (BitVec 64)}
  (ha : Arranged base size arguments environment apple mainExecutable low stackPointer payload
    words)
include ha

/-- The payload has the words at its beginning. -/
theorem Arranged.words_bytes :
    bytesAt payload.get 0 (words.flatMap (littleEndian 8)).length =
      words.flatMap (littleEndian 8) := by
  have hroom := ha.room
  have hlength : (words.flatMap (littleEndian 8)).length = words.length * 8 :=
    length_flatMap_littleEndian words
  rw [ha.contents, bytesAt_overwrite_below (by omega), bytesAt_overwrite]

/-- The payload has the strings at its end. -/
theorem Arranged.string_bytes :
    bytesAt payload.get (low - stackPointer)
        (packedBytes (arguments ++ environment ++ apple)).length =
      packedBytes (arguments ++ environment ++ apple) := by
  rw [ha.contents, bytesAt_overwrite]

/-- A space that shows the payload at the stack pointer decodes to the inputs. -/
theorem Arranged.decodes (hr : Orderly s)
    (hd : Depicts (overwrite memory stackPointer (bytesAt payload.get 0 payload.size)) s.settled)
    (hload : ∀ a, base ≤ a → a < base + size → s.CanLoad a)
    (hends : ∀ string ∈ arguments ++ environment ++ apple, 0 ∉ string) :
    Decodes s base size arguments environment apple mainExecutable stackPointer
      (pointersFrom low arguments)
      (pointersFrom (low + (packedBytes arguments).length) environment)
      (pointersFrom (low + (packedBytes arguments).length + (packedBytes environment).length)
        apple) := by
  have hbelow := ha.below
  have hwithin := ha.within
  have hroom := ha.room
  have htop := ha.top
  have hsize := ha.size
  have hlength : (words.flatMap (littleEndian 8)).length = words.length * 8 :=
    length_flatMap_littleEndian words
  have hpos : 0 < words.length := by
    rw [ha.composed]
    simp [startupWords]
  have hshown {start n : Nat} (h : start + n ≤ payload.size) :
      bytesAt (overwrite memory stackPointer (bytesAt payload.get 0 payload.size))
        (stackPointer + start) n = bytesAt payload.get start n := bytesAt_overwrite_within h
  refine ⟨ha.aligned, ⟨hwithin, by omega⟩, ⟨by simp, by simp, by simp⟩, ?_, ?_, ?_, ?_⟩
  · rw [← ha.composed]
    intro j hj
    have hword : bytesAt (overwrite memory stackPointer (bytesAt payload.get 0 payload.size))
        stackPointer (words.flatMap (littleEndian 8)).length = words.flatMap (littleEndian 8) := by
      have := hshown (show 0 + (words.flatMap (littleEndian 8)).length ≤ payload.size by omega)
      rw [Nat.add_zero] at this
      rw [this, ha.words_bytes]
    have haddress : (BitVec.ofNat 64 (stackPointer + 8 * j)).toNat = stackPointer + 8 * j := by
      rw [BitVec.toNat_ofNat, Nat.mod_eq_of_lt (by omega)]
    refine (readUnsigned_ok_iff hr hd (by decide)).mpr ⟨fun k hk => ?_, ?_⟩
    · rw [haddress]
      exact hload _ (by omega) (by omega)
    · rw [haddress, bytesAt_words hword j hj, ofLittleEndian_littleEndian (by decide)]
  · rw [pointersFrom_vectors, pointersFrom, List.forall₂_map_left_iff]
    have hstring : bytesAt (overwrite memory stackPointer (bytesAt payload.get 0 payload.size)) low
        (packedBytes (arguments ++ environment ++ apple)).length =
          packedBytes (arguments ++ environment ++ apple) := by
      have := hshown (show low - stackPointer +
        (packedBytes (arguments ++ environment ++ apple)).length ≤ payload.size by omega)
      rw [show stackPointer + (low - stackPointer) = low by omega] at this
      rw [this, ha.string_bytes]
    exact (forall₂_addressesFrom hstring (show base ≤ low by omega) htop.le hends).imp
      fun _ _ h => h.cString hr hd hbelow hload
  · rw [← ha.composed, pointersFrom_vectors]
    intro p hp
    have := le_of_mem_pointersFrom (show low + _ < 2 ^ 64 by omega) hp
    refine ⟨fun hzero => ?_, by omega⟩
    rw [hzero] at this
    simp at this
    omega
  · rw [pointersFrom_vectors]
    exact pairwise_pointersFrom (by omega)

end

/-- In a space that calls lead to, a startup stack is built that reads back as its inputs, or the
space is as it was; what is thrown speaks of room only if there is none. -/
theorem build_decodes {calls : List Call}
    (h : Along (fun s call => call.InstallsLocal s) {} calls) (base size : BitVec 64)
    (arguments environment apple : List (List Byte)) (mainExecutable : Option (BitVec 64))
    (refused : Option String) (hends : ∀ string ∈ arguments ++ environment ++ apple, 0 ∉ string) :
    Post (build base.toNat size.toNat arguments environment apple mainExecutable refused)
      (afterAll {} calls)
      (fun stack s' => stack.base = base.toNat ∧ stack.size = size.toNat ∧ ∃ argv envp applev,
        Decodes s' base.toNat size.toNat arguments environment apple mainExecutable
          stack.stackPointer argv envp applev)
      (Declines (afterAll {} calls)
        (HasRoom base.toNat size.toNat arguments environment apple mainExecutable)) := by
  have hr := orderly_afterAll h
  generalize afterAll {} calls = s at hr
  unfold build
  refine Post.bind (Post.mono (arrange_spec size.isLt) ?_ fun _ _ he => he)
  rintro ⟨stackPointer, payload⟩ _ ⟨rfl, low, words, ha⟩
  dsimp only at ha ⊢
  refine Post.bind (Post.mono (mapAnonymous_declines hr.inv size.isLt) ?_ fun _ _ he => he)
  rintro _ s1 ⟨m, hmapped⟩
  have hadded := hmapped.added
  have hr1 : Orderly s1 :=
    ⟨hadded.inv hr.inv, hadded.settled.lazyInv hr.inv.settled hr.lazyInv⟩
  obtain ⟨memory, hd⟩ := exists_depicts hr1.inv.settled
  obtain ⟨i, hindex⟩ := List.getElem?_of_mem (hadded.mem.mpr (.inl rfl))
  obtain ⟨file, hfile⟩ := hmapped.file
  have hbase := hmapped.base
  have hsize := hmapped.size
  have hlength : (bytesAt payload.get 0 payload.size).length =
      base.toNat + size.toNat - stackPointer := by
    simp [bytesAt, ha.size]
  have hwithin := ha.within
  have hroom := ha.room
  have htop := ha.top
  have hne : bytesAt payload.get 0 payload.size ≠ [] := by
    refine List.length_pos_iff.mp ?_
    have : 0 < words.length := by
      rw [ha.composed]
      simp [startupWords]
    omega
  have hf : Found s1 stackPointer (bytesAt payload.get 0 payload.size).length { write := true }
      i m := ⟨hindex, by omega, by omega, by rw [hmapped.permissions]; decide⟩
  refine Post.bind (Post.mono (writeBytes_single hr1 hd hne hf hfile hadded.notLazy) ?_
    fun _ _ h => h.elim)
  rintro _ s2 ⟨hr2, hd2, hmappings⟩
  refine Post.pure ⟨rfl, rfl, _, _, _, ha.decodes hr2 hd2 (fun a hlow hhigh => ?_) hends⟩
  exact hmapped.canLoad hr2.inv hmappings hlow hhigh

/-- A program with one argument and nothing else. -/
def oneArgument : List (List Byte) := [[0x61]]

theorem build_decodes_oneArgument :
    ((build (0x4000 : BitVec 64).toNat (0x1000 : BitVec 64).toNat oneArgument [] [] none none
      (afterAll {} [])).1.toOption.map InitialStack.stackPointer) = some 0x4FD0 ∧
    Post (build (0x4000 : BitVec 64).toNat (0x1000 : BitVec 64).toNat oneArgument [] [] none none)
      (afterAll {} [])
      (fun stack s' => stack.base = (0x4000 : BitVec 64).toNat ∧
        stack.size = (0x1000 : BitVec 64).toNat ∧ ∃ argv envp applev,
          Decodes s' (0x4000 : BitVec 64).toNat (0x1000 : BitVec 64).toNat oneArgument [] [] none
            stack.stackPointer argv envp applev)
      (Declines (afterAll {} []) (HasRoom (0x4000 : BitVec 64).toNat (0x1000 : BitVec 64).toNat
        oneArgument [] [] none)) := by
  refine ⟨by decide +kernel, @build_decodes [] trivial 0x4000 0x1000 oneArgument [] []
    none none ?_⟩
  simp [oneArgument]

end StartupStackBuilder

end Rosa
