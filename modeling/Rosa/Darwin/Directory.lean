import Rosa.Darwin.FileSpace
import Rosa.Guest.Words
import Rosa.IR.Semantics

/-!
# Reading directories

`handleGetdirentries64` and `handleLseek` of `darwin/SyscallFiles.cpp`. A call reads the directory
of the host again and skips the entries that were delivered before : the position of the open file
description is the number of entries that come first. The records that fit are written to the
guest's buffer, each with its own length and with the position of its entry.

However the guest reads a directory, with any sizes and through any descriptors that share the
description, it sees each entry once and in order. What the host says about a directory is the same
at each call.
-/

namespace Rosa.Darwin

open Rosa.Computation Rosa.AddressSpace

/-! ## The host -/

/-- `dirent` of the host; `d_name` is an array of 1024 bytes with a zero at the end of the name. -/
structure DirectoryEntry where
  inode : BitVec 64
  type : Byte
  name : List Byte
  short : name.length < 1024

/-- What `readdir` gives until its end. -/
structure HostDirectory where
  entries : List DirectoryEntry
  few : entries.length < 2 ^ 63

/-- What the host answers : whether a descriptor is a directory, the directory at a path, and the
position of any other descriptor; or `errno`. -/
structure DirectoryHost where
  isDirectory : Nat → Bool
  opendir : String → Except (BitVec 32) HostDirectory
  lseek : Nat → BitVec 64 → BitVec 32 → Except (BitVec 32) (BitVec 64)

/-! ## The handlers -/

/-- What leaves a handler as an exception : the reason of `unsupported`, or that of an access. -/
inductive HandlerError
  | unsupported (reason : String)
  | access (error : AccessError)

/-- The state that the handlers work on. -/
structure FileTask where
  state : GuestState
  addressSpace : AddressSpace
  fileSpace : GuestFileSpace

/-- A handler. -/
abbrev Handler (α : Type) := Computation FileTask HandlerError α

namespace Handler

/-- The errors of the handlers. -/
def EBADF : BitVec 32 := 9
def EFAULT : BitVec 32 := 14
def EINVAL : BitVec 32 := 22

/-- `reservedOneFlag`. -/
def reservedOneFlag : BitVec 64 := 2

/-- `setSuccess`. -/
def setSuccess (result : BitVec 64) : Handler Unit :=
  modify fun task =>
    { task with
      state := { task.state.setReg .rax result with
        rflags := (task.state.rflags &&& ~~~flagCarry) ||| reservedOneFlag } }

/-- `setError`. -/
def setError (error : BitVec 32) : Handler Unit :=
  modify fun task =>
    { task with
      state := { task.state.setReg .rax (error.signExtend 64) with
        rflags := task.state.rflags ||| flagCarry ||| reservedOneFlag } }

/-- `setHostResult`. -/
def setHostResult : Except (BitVec 32) (BitVec 64) → Handler Unit
  | .ok result => setSuccess result
  | .error error => setError error

/-- An access of the guest's memory. -/
def onMemory {α : Type} (x : Access α) : Handler α := fun task =>
  match x task.addressSpace with
  | (.ok a, s) => (.ok a, { task with addressSpace := s })
  | (.error e, s) => (.error (.access e), { task with addressSpace := s })

/-- An access whose exception is caught. -/
def attempt {α : Type} (x : Access α) : Handler (Option α) := fun task =>
  match x task.addressSpace with
  | (.ok a, s) => (.ok (some a), { task with addressSpace := s })
  | (.error _, s) => (.ok none, { task with addressSpace := s })

/-- Write `directoryIndex` of an open file. -/
def setPosition (descriptor : GuestFileDescriptor) (directoryIndex : BitVec 64) : Handler Unit :=
  modify fun task =>
    { task with
      fileSpace := task.fileSpace.after (.setDirectoryIndex descriptor directoryIndex) }

end Handler

open Handler

/-- `guestDescriptor`. -/
def guestDescriptor (argument : BitVec 64) : GuestFileDescriptor := (argument.setWidth 32).toInt

/-- `isHostDirectory`. -/
def isHostDirectory (host : DirectoryHost) (file : GuestOpenFile) : Bool :=
  file.host.any host.isDirectory

/-- `handleLseek`. -/
def handleLseek (host : DirectoryHost) : Handler Unit := do
  let task ← get
  let descriptor := guestDescriptor (task.state.regs .rdi)
  let offset := task.state.regs .rsi
  let whence := (task.state.regs .rdx).setWidth 32
  match task.fileSpace.lookup descriptor with
  | none => setError EBADF
  | some file =>
    match file.host with
    | none =>
      raise (.unsupported ("lseek is not implemented for synthetic guest descriptors; got fd=" ++
        toString descriptor))
    | some hostDescriptor =>
      if !isHostDirectory host file then setHostResult (host.lseek hostDescriptor offset whence)
      else if whence = 0 ∧ 0 ≤ offset.toInt then do
        setPosition descriptor offset
        setSuccess offset
      else if whence ≠ 1 ∨ offset ≠ 0 then setError EINVAL
      else setSuccess file.directoryIndex

/-- `maximumControlledWrite`. -/
def maximumControlledWrite : Nat := 16 * 1024 * 1024

/-- `recordLength`. -/
def DirectoryEntry.recordLength (entry : DirectoryEntry) : Nat :=
  ((21#32 + BitVec.ofNat 32 entry.name.length + 1#32 + 7#32) &&& ~~~7#32).toNat

/-- The record of the entry at `entryIndex`. -/
def DirectoryEntry.record (entry : DirectoryEntry) (entryIndex : BitVec 64) : List Byte :=
  littleEndian 8 entry.inode ++ (littleEndian 8 entryIndex ++
    (littleEndian 2 (BitVec.ofNat 16 entry.recordLength) ++
      (littleEndian 2 (BitVec.ofNat 16 entry.name.length) ++
        ([entry.type] ++ (entry.name ++
          List.replicate (entry.recordLength - (21 + entry.name.length)) 0)))))

/-- The loop of `getdirentries64` : the index it stops at, and the output. -/
def fillRecords (startIndex : BitVec 64) (byteCount : Nat) :
    List DirectoryEntry → BitVec 64 → List Byte → BitVec 64 × List Byte
  | [], entryIndex, output => (entryIndex, output)
  | entry :: rest, entryIndex, output =>
    if entryIndex < startIndex then fillRecords startIndex byteCount rest (entryIndex + 1) output
    else if byteCount < output.length + entry.recordLength then (entryIndex, output)
    else fillRecords startIndex byteCount rest (entryIndex + 1) (output ++ entry.record entryIndex)

/-- Write the position to the base address. -/
def writeBase (base resumeIndex : BitVec 64) : Access Unit := do
  validateAccess base.toNat 8 { write := true }
  writeBytes base.toNat (littleEndian 8 resumeIndex)

/-- The end of `getdirentries64` : the position goes to the base address, if there is one. -/
def reportBase (base resumeIndex : BitVec 64) (size : Nat) : Handler Unit :=
  if base = 0 then setSuccess ((BitVec.ofNat 32 size).setWidth 64)
  else do
    match ← attempt (writeBase base resumeIndex) with
    | some _ => setSuccess ((BitVec.ofNat 32 size).setWidth 64)
    | none => setError EFAULT

/-- The rest of `getdirentries64` on the entries of the host. -/
def deliverEntries (descriptor : GuestFileDescriptor) (file : GuestOpenFile)
    (directory : HostDirectory) : Handler Unit := do
  let task ← get
  let (resumeIndex, output) :=
    fillRecords file.directoryIndex (task.state.regs .rdx).toNat directory.entries 0 []
  setPosition descriptor resumeIndex
  onMemory (writeBytes (task.state.regs .rsi).toNat output)
  reportBase (task.state.regs .rcx) resumeIndex output.length

/-- `handleGetdirentries64`. -/
def handleGetdirentries64 (host : DirectoryHost) : Handler Unit := do
  let task ← get
  let descriptor := guestDescriptor (task.state.regs .rdi)
  match task.fileSpace.lookup descriptor with
  | none => setError EBADF
  | some file =>
    if !isHostDirectory host file then
      raise (.unsupported ("getdirentries64 is only implemented for hosted directory " ++
        "descriptors; got fd=" ++ toString descriptor))
    else if maximumControlledWrite < (task.state.regs .rdx).toNat then setError EINVAL
    else do
      match ← attempt (validateAccess (task.state.regs .rsi).toNat (task.state.regs .rdx).toNat
          { write := true }) with
      | none => setError EFAULT
      | some _ =>
        match host.opendir file.guestPath with
        | .error hostError => setError hostError
        | .ok directory => deliverEntries descriptor file directory

/-! ## The guest -/

/-- A record as the guest sees it. -/
structure DirectoryRecord where
  inode : BitVec 64
  seekOffset : BitVec 64
  type : Byte
  name : List Byte
  deriving DecidableEq

/-- Read a record : its name is followed by a zero, and the next record by its length. -/
def readRecord : Reader Unit DirectoryRecord := do
  let inode ← Reader.takeWord () 64 8
  let seekOffset ← Reader.takeWord () 64 8
  let recordLength ← Reader.takeWord () 16 2
  let nameLength ← Reader.takeWord () 16 2
  let type ← Reader.takeWord () 8 1
  let name ← Reader.takeBytes () nameLength.toNat
  let padding ← Reader.takeBytes () (recordLength.toNat - (21 + nameLength.toNat))
  raiseIf (padding.head? != some 0) ()
  pure { inode, seekOffset, type, name }

/-- Read records until the end of the bytes. -/
def readRecordsFrom : Nat → List Byte → Option (List DirectoryRecord)
  | _, [] => some []
  | 0, _ :: _ => none
  | fuel + 1, byte :: bytes =>
    match readRecord (byte :: bytes) with
    | (.ok record, rest) => (readRecordsFrom fuel rest).map (record :: ·)
    | (.error _, _) => none

/-- The records in a buffer. -/
def readRecords (bytes : List Byte) : Option (List DirectoryRecord) :=
  readRecordsFrom bytes.length bytes

/-- The records that the guest reads from its buffer when a call is done. -/
def readReply (buffer : BitVec 64) : Except HandlerError Unit × FileTask → List DirectoryRecord
  | (.ok _, task) =>
    if task.state.rflags &&& flagCarry = 0 then
      match (readInto buffer.toNat (task.state.regs .rax).toNat task.addressSpace).1 with
      | .ok bytes => (readRecords bytes).getD []
      | .error _ => []
    else []
  | (.error _, _) => []

/-- The entry at a position, as a record. -/
def DirectoryEntry.recordAt (entry : DirectoryEntry) (index : Nat) : DirectoryRecord :=
  ⟨entry.inode, BitVec.ofNat 64 index, entry.type, entry.name⟩

/-- The records of a directory. -/
def HostDirectory.records (directory : HostDirectory) : List DirectoryRecord :=
  directory.entries.zipIdx.map fun p => p.1.recordAt p.2

/-- A turn : the guest calls one of the handlers, with the memory it has then, or it makes another
call on its descriptors. -/
inductive DirectoryTurn
  | getdirentries64 (state : GuestState) (addressSpace : AddressSpace)
  | lseek (state : GuestState) (addressSpace : AddressSpace)
  | files (call : GuestFileSpace.FileCall)

namespace DirectoryTurn

/-- The descriptors after a turn. -/
def after (host : DirectoryHost) (fs : GuestFileSpace) : DirectoryTurn → GuestFileSpace
  | getdirentries64 state addressSpace =>
    (handleGetdirentries64 host ⟨state, addressSpace, fs⟩).2.fileSpace
  | lseek state addressSpace => (handleLseek host ⟨state, addressSpace, fs⟩).2.fileSpace
  | files call => fs.after call

/-- What the guest sees of a description in a turn. -/
def seen (host : DirectoryHost) (r : Nat) (fs : GuestFileSpace) :
    DirectoryTurn → List DirectoryRecord
  | getdirentries64 state addressSpace =>
    if fs.descriptors.reference (guestDescriptor (state.regs .rdi)) = some r then
      readReply (state.regs .rsi) (handleGetdirentries64 host ⟨state, addressSpace, fs⟩)
    else []
  | _ => []

/-- The turn writes the position of a description itself. -/
def Moves (r : Nat) (fs : GuestFileSpace) : DirectoryTurn → Prop
  | lseek state _ => fs.descriptors.reference (guestDescriptor (state.regs .rdi)) = some r ∧
      (state.regs .rdx).setWidth 32 = (0 : BitVec 32)
  | files (.setDirectoryIndex descriptor _) => fs.descriptors.reference descriptor = some r
  | _ => False

end DirectoryTurn

/-- The descriptors after a run. -/
def afterTurns (host : DirectoryHost) (fs : GuestFileSpace) (turns : List DirectoryTurn) :
    GuestFileSpace := turns.foldl (DirectoryTurn.after host) fs

/-- What the guest sees of a description in a run. -/
def seenThrough (host : DirectoryHost) (r : Nat) :
    GuestFileSpace → List DirectoryTurn → List DirectoryRecord
  | _, [] => []
  | fs, turn :: turns => turn.seen host r fs ++ seenThrough host r (turn.after host fs) turns

/-- No turn of a run writes the position of a description itself. -/
def Unmoved (host : DirectoryHost) (r : Nat) : GuestFileSpace → List DirectoryTurn → Prop
  | _, [] => True
  | fs, turn :: turns => ¬turn.Moves r fs ∧ Unmoved host r (turn.after host fs) turns

/-! ## Records -/

section

variable (entry : DirectoryEntry)

theorem toNat_and_not_seven (v : BitVec 32) : (v &&& ~~~7#32).toNat = v.toNat / 8 * 8 := by
  have hshift : v &&& ~~~7#32 = (v >>> 3) <<< 3 := by
    apply BitVec.eq_of_getLsbD_eq
    intro i hi
    interval_cases i <;> simp
  have hlt := v.isLt
  rw [hshift, BitVec.toNat_shiftLeft, BitVec.toNat_ushiftRight, Nat.shiftLeft_eq,
    Nat.shiftRight_eq_div_pow]
  omega

theorem DirectoryEntry.recordLength_eq :
    entry.recordLength = (29 + entry.name.length) / 8 * 8 := by
  have hshort := entry.short
  rw [recordLength, toNat_and_not_seven]
  simp only [BitVec.toNat_add, BitVec.toNat_ofNat]
  omega

/-- A record has room for the name and a zero, and its length fits a half word. -/
theorem DirectoryEntry.recordLength_bounds :
    22 + entry.name.length ≤ entry.recordLength ∧ entry.recordLength ≤ 1048 := by
  have hshort := entry.short
  rw [recordLength_eq]
  omega

@[simp] theorem DirectoryEntry.length_record (entryIndex : BitVec 64) :
    (entry.record entryIndex).length = entry.recordLength := by
  have hbounds := entry.recordLength_bounds
  simp only [record, List.length_append, length_littleEndian, List.length_cons, List.length_nil,
    List.length_replicate]
  omega

/-- The guest reads back what the handler wrote. -/
theorem DirectoryEntry.reads_record (index : Nat) :
    Reader.Reads readRecord (entry.record (BitVec.ofNat 64 index)) (entry.recordAt index) := by
  obtain ⟨hlow, hhigh⟩ := entry.recordLength_bounds
  have hshort := entry.short
  have hlength : (BitVec.ofNat 16 entry.recordLength).toNat = entry.recordLength :=
    Nat.mod_eq_of_lt (by omega)
  have hname : (BitVec.ofNat 16 entry.name.length).toNat = entry.name.length :=
    Nat.mod_eq_of_lt (by omega)
  have htype : Reader.Reads (Reader.takeWord () 8 1) [entry.type] entry.type := by
    have htake := Reader.Reads.takeWord (e := ()) (n := 1) (le_refl 8) entry.type
    rwa [show littleEndian 1 entry.type = [entry.type] by simp [littleEndian]] at htake
  unfold readRecord record
  refine (Reader.Reads.takeWord (by decide) entry.inode).bind ?_
  refine (Reader.Reads.takeWord (by decide) (BitVec.ofNat 64 index)).bind ?_
  refine (Reader.Reads.takeWord (by decide) (BitVec.ofNat 16 entry.recordLength)).bind ?_
  refine (Reader.Reads.takeWord (by decide) (BitVec.ofNat 16 entry.name.length)).bind ?_
  refine htype.bind ?_
  rw [hname, hlength]
  refine (Reader.Reads.takeBytes rfl).bind ?_
  rw [← List.append_nil (List.replicate _ _)]
  refine (Reader.Reads.takeBytes List.length_replicate).bind ?_
  refine Reader.Reads.raiseIf_bind ?_ (Reader.Reads.pure _)
  obtain ⟨n, hn⟩ : ∃ n, entry.recordLength - (21 + entry.name.length) = n + 1 :=
    ⟨entry.recordLength - (22 + entry.name.length), by omega⟩
  rw [hn]
  rfl

end

/-- The records of entries, one after the other. -/
def encodeEntries (entries : List (DirectoryEntry × Nat)) : List Byte :=
  entries.flatMap fun p => p.1.record (BitVec.ofNat 64 p.2)

theorem readRecordsFrom_encodeEntries :
    ∀ (entries : List (DirectoryEntry × Nat)) {fuel : Nat}, entries.length ≤ fuel →
      readRecordsFrom fuel (encodeEntries entries) = some (entries.map fun p => p.1.recordAt p.2)
  | [], fuel, _ => by cases fuel <;> rfl
  | p :: entries, fuel, hfuel => by
    obtain ⟨fuel, rfl⟩ : ∃ n, fuel = n + 1 := ⟨fuel - 1, by
      have hlength : (p :: entries).length = entries.length + 1 := rfl
      omega⟩
    have hread := p.1.reads_record p.2 (encodeEntries entries)
    have hpos := p.1.recordLength_bounds.1
    have hsplit : encodeEntries (p :: entries) =
        p.1.record (BitVec.ofNat 64 p.2) ++ encodeEntries entries := List.flatMap_cons
    rw [← hsplit] at hread
    cases hbytes : encodeEntries (p :: entries) with
    | nil =>
      have hzero := congrArg List.length (hsplit.symm.trans hbytes)
      rw [List.length_append, DirectoryEntry.length_record, List.length_nil] at hzero
      omega
    | cons byte bytes =>
      rw [hbytes] at hread
      rw [readRecordsFrom, hread]
      dsimp only
      rw [readRecordsFrom_encodeEntries entries (Nat.le_of_succ_le_succ hfuel)]
      rfl

theorem length_le_encodeEntries (entries : List (DirectoryEntry × Nat)) :
    entries.length ≤ (encodeEntries entries).length := by
  induction entries with
  | nil => exact Nat.zero_le _
  | cons p entries ih =>
    have hpos := p.1.recordLength_bounds.1
    rw [encodeEntries, List.flatMap_cons, List.length_append, DirectoryEntry.length_record,
      List.length_cons]
    exact Nat.add_comm 1 _ ▸ Nat.add_le_add (by omega) ih

/-- Whatever entries are delivered, the guest reads their records. -/
theorem readRecords_encodeEntries (entries : List (DirectoryEntry × Nat)) :
    readRecords (encodeEntries entries) = some (entries.map fun p => p.1.recordAt p.2) :=
  readRecordsFrom_encodeEntries entries (length_le_encodeEntries entries)

/-! ## The loop -/

/-- What the loop comes to from the entry `i` on : it stops before the entry `i + n`, at the end or
because the record does not fit, and it has the records of the entries it did not skip. -/
structure Filled (startIndex : BitVec 64) (byteCount : Nat) (rest : List DirectoryEntry) (i : Nat)
    (output : List Byte) (n : Nat) : Prop where
  le : n ≤ rest.length
  result : fillRecords startIndex byteCount rest (BitVec.ofNat 64 i) output =
    (BitVec.ofNat 64 (i + n),
      output ++ encodeEntries (((rest.zipIdx i).take n).drop (startIndex.toNat - i)))
  fits : (output ++
    encodeEntries (((rest.zipIdx i).take n).drop (startIndex.toNat - i))).length ≤ byteCount
  stops : n < rest.length → startIndex.toNat ≤ i + n ∧ byteCount < (output ++
    encodeEntries (((rest.zipIdx i).take n).drop (startIndex.toNat - i))).length + 1048

theorem exists_filled (startIndex : BitVec 64) {byteCount : Nat} :
    ∀ {rest : List DirectoryEntry} {i : Nat} {output : List Byte}, i + rest.length < 2 ^ 64 →
      output.length ≤ byteCount → ∃ n, Filled startIndex byteCount rest i output n
  | [], i, output, _, hfits => by
    refine ⟨0, le_refl _, ?_, ?_, fun h => absurd h (Nat.lt_irrefl 0)⟩
    · rw [fillRecords]
      simp [encodeEntries]
    · simpa [encodeEntries] using hfits
  | entry :: rest, i, output, hfew, hfits => by
    have hlength : (entry :: rest).length = rest.length + 1 := rfl
    have hnext : BitVec.ofNat 64 i + 1 = BitVec.ofNat 64 (i + 1) := (BitVec.ofNat_add i 1).symm
    have hi : (BitVec.ofNat 64 i).toNat = i := Nat.mod_eq_of_lt (by omega)
    have hbounds := entry.recordLength_bounds
    by_cases hskip : i < startIndex.toNat
    · have hlt : BitVec.ofNat 64 i < startIndex := by rwa [BitVec.lt_def, hi]
      have hrest : i + 1 + rest.length < 2 ^ 64 := by omega
      obtain ⟨n, hn⟩ := exists_filled startIndex hrest hfits
      have hdrop : (((entry :: rest).zipIdx i).take (n + 1)).drop (startIndex.toNat - i) =
          ((rest.zipIdx (i + 1)).take n).drop (startIndex.toNat - (i + 1)) := by
        obtain ⟨k, hk⟩ : ∃ k, startIndex.toNat - i = k + 1 := ⟨startIndex.toNat - (i + 1), by omega⟩
        rw [hk, List.zipIdx_cons, List.take_succ_cons, List.drop_succ_cons]
        congr 1
        omega
      refine ⟨n + 1, by have := hn.le; omega, ?_, by rw [hdrop]; exact hn.fits, fun h => ?_⟩
      · rw [fillRecords, if_pos hlt, hnext, hn.result, hdrop, Nat.add_right_comm, Nat.add_assoc]
      · rw [hdrop, ← Nat.add_assoc, Nat.add_right_comm]
        exact hn.stops (by omega)
    · have hnlt : ¬BitVec.ofNat 64 i < startIndex := by rwa [BitVec.lt_def, hi]
      have hzero : startIndex.toNat - i = 0 := by omega
      by_cases hfull : byteCount < output.length + entry.recordLength
      · refine ⟨0, Nat.zero_le _, ?_, ?_, fun _ => ⟨by omega, ?_⟩⟩
        · rw [fillRecords, if_neg hnlt, if_pos hfull]
          simp [encodeEntries]
        · simpa [encodeEntries] using hfits
        · simp only [List.take_zero, List.drop_nil, encodeEntries, List.flatMap_nil,
            List.append_nil]
          omega
      · have hrest : i + 1 + rest.length < 2 ^ 64 := by omega
        have hroom : (output ++ entry.record (BitVec.ofNat 64 i)).length ≤ byteCount := by
          rw [List.length_append, DirectoryEntry.length_record]
          omega
        obtain ⟨n, hn⟩ := exists_filled startIndex hrest hroom
        have hdrop : output ++
            encodeEntries ((((entry :: rest).zipIdx i).take (n + 1)).drop (startIndex.toNat - i)) =
            (output ++ entry.record (BitVec.ofNat 64 i)) ++
              encodeEntries (((rest.zipIdx (i + 1)).take n).drop (startIndex.toNat - (i + 1))) := by
          have hzero' : startIndex.toNat - (i + 1) = 0 := by omega
          rw [hzero, hzero', List.drop_zero, List.drop_zero, List.zipIdx_cons, List.take_succ_cons,
            encodeEntries, List.flatMap_cons, List.append_assoc, encodeEntries]
        refine ⟨n + 1, by have := hn.le; omega, ?_, by rw [hdrop]; exact hn.fits, fun h => ?_⟩
        · rw [fillRecords, if_neg hnlt, if_neg hfull, hnext, hn.result, hdrop, Nat.add_right_comm,
            Nat.add_assoc]
        · rw [hdrop, ← Nat.add_assoc, Nat.add_right_comm]
          exact hn.stops (by omega)

/-- The entries of a directory from one position to another, with their positions. -/
def HostDirectory.between (directory : HostDirectory) (start stop : Nat) :
    List (DirectoryEntry × Nat) := (directory.entries.zipIdx.take stop).drop start

theorem HostDirectory.map_between (directory : HostDirectory) (start stop : Nat) :
    ((directory.between start stop).map fun p => p.1.recordAt p.2) =
      (directory.records.take stop).drop start := by
  rw [between, records, List.map_drop, List.map_take]

/-- The loop over a whole directory. -/
theorem HostDirectory.exists_filled (directory : HostDirectory) (startIndex : BitVec 64)
    (byteCount : Nat) : ∃ n ≤ directory.entries.length,
      fillRecords startIndex byteCount directory.entries 0 [] =
        (BitVec.ofNat 64 n, encodeEntries (directory.between startIndex.toNat n)) ∧
      (encodeEntries (directory.between startIndex.toNat n)).length ≤ byteCount ∧
      (n < directory.entries.length → startIndex.toNat ≤ n ∧
        byteCount < (encodeEntries (directory.between startIndex.toNat n)).length + 1048) := by
  have hfew := directory.few
  have hroom : 0 + directory.entries.length < 2 ^ 64 := by omega
  have hempty : ([] : List Byte).length ≤ byteCount := Nat.zero_le _
  obtain ⟨n, hle, hresult, hfits, hstops⟩ := Darwin.exists_filled startIndex hroom hempty
  simp only [Nat.zero_add, Nat.sub_zero, List.nil_append] at hresult hfits hstops
  exact ⟨n, hle, hresult, hfits, hstops⟩

/-! ## One call -/

/-- The guest's buffers : what it may write it may read, and the base address may be written and is
apart from the records. -/
structure Buffers (state : GuestState) (s : AddressSpace) : Prop where
  regular : Regular s
  pages : NoneFails s (state.regs .rsi).toNat (state.regs .rdx).toNat
  readable : ∀ k < (state.regs .rdx).toNat, s.MayWrite ((state.regs .rsi).toNat + k) →
    s.ReadableAt ((state.regs .rsi).toNat + k)
  base : state.regs .rcx ≠ 0 → NoneFails s (state.regs .rcx).toNat 8 ∧
    (∀ k < 8, s.MayWrite ((state.regs .rcx).toNat + k)) ∧
    ((state.regs .rcx).toNat + 8 ≤ (state.regs .rsi).toNat ∨
      (state.regs .rsi).toNat + (state.regs .rdx).toNat ≤ (state.regs .rcx).toNat)

/-- The registers of a call that returned a value. -/
def succeeded (state : GuestState) (result : BitVec 64) : GuestState :=
  { state.setReg .rax result with rflags := (state.rflags &&& ~~~flagCarry) ||| reservedOneFlag }

/-- The call returned zero. -/
def repliesZero : Except HandlerError Unit × FileTask → Bool
  | (.ok _, task) => task.state.rflags &&& flagCarry == 0 && task.state.regs .rax == 0
  | (.error _, _) => false

section

variable {state : GuestState} {s : AddressSpace} {fs : GuestFileSpace}
  {descriptor : GuestFileDescriptor} {file : GuestOpenFile} {directory : HostDirectory}

theorem carry_succeeded (result : BitVec 64) :
    (succeeded state result).rflags &&& flagCarry = 0 := by
  have hcarry : ~~~flagCarry &&& flagCarry = 0 := by decide
  have hreserved : reservedOneFlag &&& flagCarry = 0 := by decide
  show ((state.rflags &&& ~~~flagCarry) ||| reservedOneFlag) &&& flagCarry = 0
  rw [BitVec.and_or_distrib_right, BitVec.and_assoc, hcarry, hreserved]
  simp

theorem rax_succeeded (result : BitVec 64) : (succeeded state result).regs .rax = result := by
  simp [succeeded]

theorem carry_setError (rflags : BitVec 64) :
    (rflags ||| flagCarry ||| reservedOneFlag) &&& flagCarry ≠ 0 := by
  intro h
  have hbit := congrArg (BitVec.getLsbD · 0) h
  simp [reservedOneFlag, flagCarry] at hbit

/-- A call that returns an error shows nothing, and it does not return zero. -/
theorem readReply_setError (buffer : BitVec 64) (error : BitVec 32) (task : FileTask) :
    readReply buffer (setError error task) = [] ∧ repliesZero (setError error task) = false := by
  have hcarry := carry_setError task.state.rflags
  exact ⟨if_neg hcarry, Bool.and_eq_false_imp.mpr fun h => absurd (beq_iff_eq.mp h) hcarry⟩

/-- The end of a call whose base address may be written. -/
theorem reportBase_succeeds (state : GuestState) (fs : GuestFileSpace) {base : BitVec 64}
    (resumeIndex : BitVec 64) (n : Nat) {memory : Nat → Byte} {address size : Nat}
    (hs : Shown memory s)
    (hbase : base ≠ 0 → NoneFails s base.toNat 8 ∧ (∀ k < 8, s.MayWrite (base.toNat + k)) ∧
      (base.toNat + 8 ≤ address ∨ address + size ≤ base.toNat)) :
    ∃ s' memory', reportBase base resumeIndex n ⟨state, s, fs⟩ =
        (.ok (), ⟨succeeded state ((BitVec.ofNat 32 n).setWidth 64), s', fs⟩) ∧
      Shown memory' s' ∧ SamePermits s s' ∧ (∀ a n, NoneFails s a n → NoneFails s' a n) ∧
      bytesAt memory' address size = bytesAt memory address size := by
  unfold reportBase
  by_cases hzero : base = 0
  · rw [if_pos hzero]
    exact ⟨s, memory, rfl, hs, .of_mappings rfl, fun _ _ h => h, rfl⟩
  · obtain ⟨hno, hwrite, hapart⟩ := hbase hzero
    obtain ⟨s1, hvalidate, hcalm⟩ := validateAccess_may hs.regular hwrite
    have hlength : (littleEndian 8 resumeIndex).length = 8 := length_littleEndian _
    have hpermits : SamePermits s s1 := hcalm.touches.samePermits
    have hno' : NoneFails s1 base.toNat (littleEndian 8 resumeIndex).length := by
      rw [hlength]
      exact hcalm.noneFails hs.regular.orderly hno
    have hwrite' : ∀ k < (littleEndian 8 resumeIndex).length, s1.MayWrite (base.toNat + k) := by
      rw [hlength]
      exact fun k hk => hpermits.mayWrite (hwrite k hk)
    obtain ⟨s2, hrun, hshown, hsame, hpages⟩ := writeBytes_may (hcalm.shown hs) hno' hwrite'
    have hwrites : writeBase base resumeIndex s = (.ok (), s2) := by
      rw [writeBase, bind_ok hvalidate, hrun]
    refine ⟨s2, _, ?_, hshown, hsame.trans hpermits, fun a n h =>
      hpages a n (hcalm.noneFails hs.regular.orderly h), bytesAt_overwrite_apart (by rwa [hlength])⟩
    have hattempt : attempt (writeBase base resumeIndex) ⟨state, s, fs⟩ =
        (.ok (some ()), ⟨state, s2, fs⟩) := by
      rw [attempt, hwrites]
    rw [if_neg hzero, bind_ok hattempt]
    rfl

/-- What a call delivers, when the buffer may be written : the records of the entries from the
position on, up to the entry `n`, where the position goes. -/
structure Delivered (state : GuestState) (fs : GuestFileSpace) (descriptor : GuestFileDescriptor)
    (file : GuestOpenFile) (directory : HostDirectory) (reply : Except HandlerError Unit × FileTask)
    (n : Nat) : Prop where
  le : n ≤ directory.entries.length
  from_start : n < directory.entries.length → file.directoryIndex.toNat ≤ n
  space : reply.2.fileSpace = fs.after (.setDirectoryIndex descriptor (BitVec.ofNat 64 n))
  seen : readReply (state.regs .rsi) reply =
    (directory.records.take n).drop file.directoryIndex.toNat
  ends : repliesZero reply = true → 1048 ≤ (state.regs .rdx).toNat → n = directory.entries.length

/-- The records are where the guest reads them. -/
theorem deliverEntries_run (fs : GuestFileSpace) (descriptor : GuestFileDescriptor)
    {s1 : AddressSpace} {resumeIndex : BitVec 64} {output : List Byte}
    (hb : Buffers state s)
    (hwrite : ∀ k < (state.regs .rdx).toNat, s.MayWrite ((state.regs .rsi).toNat + k))
    (hcalm : Calm s s1)
    (hfill : fillRecords file.directoryIndex (state.regs .rdx).toNat directory.entries 0 [] =
      (resumeIndex, output))
    (hfits : output.length ≤ (state.regs .rdx).toNat) :
    ∃ s', deliverEntries descriptor file directory ⟨state, s1, fs⟩ =
        (.ok (), ⟨succeeded state ((BitVec.ofNat 32 output.length).setWidth 64), s',
          fs.after (.setDirectoryIndex descriptor resumeIndex)⟩) ∧
      (readInto (state.regs .rsi).toNat output.length s').1 = .ok output := by
  obtain ⟨memory, hs⟩ := hb.regular.exists_shown
  have hr := hb.regular
  have hpermits : SamePermits s s1 := hcalm.touches.samePermits
  have hno : NoneFails s1 (state.regs .rsi).toNat output.length :=
    (hcalm.noneFails hr.orderly hb.pages).of_le hfits
  obtain ⟨s2, hrun, hshown, hsame, hpages⟩ := writeBytes_may (hcalm.shown hs) hno
    fun k hk => hpermits.mayWrite (hwrite k (by omega))
  have hpermits2 : SamePermits s s2 := hsame.trans hpermits
  have hbase2 (hne : state.regs .rcx ≠ 0) : NoneFails s2 (state.regs .rcx).toNat 8 ∧
      (∀ k < 8, s2.MayWrite ((state.regs .rcx).toNat + k)) ∧
      ((state.regs .rcx).toNat + 8 ≤ (state.regs .rsi).toNat ∨
        (state.regs .rsi).toNat + output.length ≤ (state.regs .rcx).toNat) := by
    obtain ⟨hno8, hwrite8, hapart⟩ := hb.base hne
    exact ⟨hpages _ _ (hcalm.noneFails hr.orderly hno8),
      fun k hk => hpermits2.mayWrite (hwrite8 k hk), by omega⟩
  obtain ⟨s3, memory3, hreport, hs3, hsame3, hpages3, hbytes⟩ :=
    reportBase_succeeds state (fs.after (.setDirectoryIndex descriptor resumeIndex)) resumeIndex
      output.length hshown hbase2
  have hpermits3 : SamePermits s s3 := hsame3.trans hpermits2
  have hreadable : ∀ k < output.length, s3.ReadableAt ((state.regs .rsi).toNat + k) := by
    intro k hk
    have hk' : k < (state.regs .rdx).toNat := by omega
    exact hpermits3.readableAt (hb.readable k hk' (hwrite k hk'))
  refine ⟨s3, ?_, ?_⟩
  · have honMemory : onMemory (writeBytes (state.regs .rsi).toNat output)
        ⟨state, s1, fs.after (.setDirectoryIndex descriptor resumeIndex)⟩ =
        (.ok (), ⟨state, s2, fs.after (.setDirectoryIndex descriptor resumeIndex)⟩) := by
      rw [onMemory, hrun]
    unfold deliverEntries
    rw [bind_ok (x := Computation.get) (s := (⟨state, s1, fs⟩ : FileTask)) rfl]
    dsimp only
    rw [hfill]
    dsimp only
    rw [bind_ok (x := setPosition descriptor resumeIndex) (s := (⟨state, s1, fs⟩ : FileTask)) rfl,
      bind_ok honMemory, hreport]
  · rw [readInto_may hs3 (hpages3 _ _ (hpages _ _ hno)) hreadable, hbytes, bytesAt_overwrite]

theorem deliverEntries_spec {s1 : AddressSpace} (hb : Buffers state s)
    (hwrite : ∀ k < (state.regs .rdx).toNat, s.MayWrite ((state.regs .rsi).toNat + k))
    (hcalm : Calm s s1) (hsize : (state.regs .rdx).toNat ≤ maximumControlledWrite) :
    ∃ n, Delivered state fs descriptor file directory
      (deliverEntries descriptor file directory ⟨state, s1, fs⟩) n := by
  obtain ⟨n, hle, hfill, hfits, hstops⟩ :=
    directory.exists_filled file.directoryIndex (state.regs .rdx).toNat
  generalize houtput : encodeEntries (directory.between file.directoryIndex.toNat n) = output
    at hfill hfits hstops
  obtain ⟨s', hrun, hread⟩ := deliverEntries_run fs descriptor hb hwrite hcalm hfill hfits
  have hmax : maximumControlledWrite < 2 ^ 32 := by decide
  have hrax : ((BitVec.ofNat 32 output.length).setWidth 64).toNat = output.length := by
    rw [BitVec.toNat_setWidth, BitVec.toNat_ofNat]
    omega
  rw [hrun]
  refine ⟨n, hle, fun h => (hstops h).1, rfl, ?_, fun hzero hroom => ?_⟩
  · have hcarry : (succeeded state ((BitVec.ofNat 32 output.length).setWidth 64)).rflags &&&
        flagCarry = 0 := carry_succeeded _
    unfold readReply
    dsimp only
    rw [if_pos hcarry, rax_succeeded, hrax, hread]
    dsimp only
    rw [← houtput, readRecords_encodeEntries, Option.getD_some, directory.map_between]
  · -- no record was written, although every record fits
    by_contra hne
    obtain ⟨-, hfull⟩ := hstops (by omega)
    have hzero' : (BitVec.ofNat 32 output.length).setWidth 64 = (0 : BitVec 64) :=
      (rax_succeeded _).symm.trans (beq_iff_eq.mp (Bool.and_eq_true_iff.mp hzero).2)
    rw [hzero', show (0 : BitVec 64).toNat = 0 from rfl] at hrax
    omega

/-- A call that delivers nothing : it is refused, and the position stays. -/
structure Refused (state : GuestState) (fs : GuestFileSpace)
    (reply : Except HandlerError Unit × FileTask) : Prop where
  space : reply.2.fileSpace = fs
  seen : readReply (state.regs .rsi) reply = []
  ends : repliesZero reply = false

theorem Refused.setError {s1 : AddressSpace} (error : BitVec 32) :
    Refused state fs (setError error ⟨state, s1, fs⟩) :=
  ⟨rfl, (readReply_setError _ error _).1, (readReply_setError (state.regs .rsi) error _).2⟩

/-- A call on a directory is refused, or it delivers. -/
theorem handleGetdirentries64_spec {host : DirectoryHost} (hb : Buffers state s)
    (hfile : fs.lookup (guestDescriptor (state.regs .rdi)) = some file)
    (hdir : isHostDirectory host file = true)
    (hopen : host.opendir file.guestPath = .ok directory) :
    Refused state fs (handleGetdirentries64 host ⟨state, s, fs⟩) ∨
      ∃ n, Delivered state fs (guestDescriptor (state.regs .rdi)) file directory
        (handleGetdirentries64 host ⟨state, s, fs⟩) n := by
  unfold handleGetdirentries64
  rw [bind_ok (x := Computation.get) (s := (⟨state, s, fs⟩ : FileTask)) rfl]
  simp only [hfile, hdir, Bool.not_true, Bool.false_eq_true, if_false]
  split
  · exact .inl (.setError EINVAL)
  · next hsize =>
    have hfound := validateAccess_found hb.regular.inv (state.regs .rsi).toNat
      (state.regs .rdx).toNat { write := true }
    unfold Post at hfound
    rcases hrun : validateAccess (state.regs .rsi).toNat (state.regs .rdx).toNat { write := true } s
      with ⟨e | u, s1⟩
    · have hattempt : attempt (validateAccess (state.regs .rsi).toNat (state.regs .rdx).toNat
          { write := true }) ⟨state, s, fs⟩ = (.ok none, ⟨state, s1, fs⟩) := by
        rw [attempt, hrun]
      rw [bind_ok hattempt]
      exact .inl (.setError EFAULT)
    · rw [hrun] at hfound
      have hattempt : attempt (validateAccess (state.regs .rsi).toNat (state.regs .rdx).toNat
          { write := true }) ⟨state, s, fs⟩ = (.ok (some ()), ⟨state, s1, fs⟩) := by
        rw [attempt, hrun]
      rw [bind_ok hattempt]
      simp only [hopen]
      exact .inr (deliverEntries_spec hb hfound.2 hfound.1 (not_lt.mp hsize))

end

/-! ## Runs -/

/-- A turn with buffers for what it delivers. -/
def DirectoryTurn.Buffered : DirectoryTurn → Prop
  | .getdirentries64 state addressSpace => Buffers state addressSpace
  | _ => True

/-- The description is kept as it is, or it is gone. -/
structure Spares (r : Nat) (fs fs' : GuestFileSpace) : Prop where
  made : r < fs'.descriptors.next
  cell : fs'.descriptors.cells r = fs.descriptors.cells r ∨ fs'.descriptors.cells r = none

section

open GuestFileSpace

variable {fs : GuestFileSpace} {r : Nat}

theorem Spares.refl (hr : r < fs.descriptors.next) : Spares r fs fs := ⟨hr, .inl rfl⟩

theorem install_spares (hr : r < fs.descriptors.next) (file : GuestOpenFile) (closeOnExec : Bool)
    (minimum : Int) : Post (install file closeOnExec minimum) fs (fun _ fs' => Spares r fs fs')
      fun _ fs' => Spares r fs fs' := by
  have hadd (descriptor : GuestFileDescriptor) :
      Spares r fs (fs.installed descriptor file closeOnExec) := by
    have hne : r ≠ fs.descriptors.next := Nat.ne_of_lt hr
    unfold installed
    split <;> exact ⟨Nat.lt_succ_of_lt hr, .inl (Function.update_of_ne hne ..)⟩
  unfold install
  refine Post.bind (Post.get ?_)
  cases fs.lowestFreeDescriptor minimum with
  | some descriptor => exact Post.bind (Post.modify (Post.pure (hadd descriptor)))
  | none => exact Post.bind (Post.modify (Post.raise ⟨hr, .inl rfl⟩))

theorem openHostFile_spares (hr : r < fs.descriptors.next) (canonicalPath : String)
    (flags : BitVec 32) (host : Option Nat) :
    Post (openHostFile canonicalPath flags host) fs (fun _ fs' => Spares r fs fs')
      fun _ fs' => Spares r fs fs' := by
  unfold openHostFile
  refine Post.bind (Post.get ?_)
  cases host with
  | none => exact Post.raise (.refl hr)
  | some host => exact install_spares hr _ _ _

theorem FileCall.run_spares (hr : r < fs.descriptors.next) (call : FileCall)
    (hmoves : ¬(DirectoryTurn.files call).Moves r fs) :
    Post call.run fs (fun _ fs' => Spares r fs fs') fun _ fs' => Spares r fs fs' := by
  cases call with
  | openCurrentDirectory flags host =>
    refine Post.bind (Post.mono ?_ (fun _ _ h => Post.pure h) fun _ _ h => h)
    unfold GuestFileSpace.openCurrentDirectory
    refine Post.bind (Post.get ?_)
    cases host with
    | none => exact Post.raise (.refl hr)
    | some host => exact openHostFile_spares hr _ _ _
  | openRootDirectory flags =>
    exact Post.bind ((install_spares hr _ _ _).mono (fun _ _ h => Post.pure h) fun _ _ h => h)
  | openSyntheticDirectory guestPath flags =>
    refine Post.bind (Post.mono ?_ (fun _ _ h => Post.pure h) fun _ _ h => h)
    unfold GuestFileSpace.openSyntheticDirectory
    split
    · exact install_spares hr _ _ _
    · exact Post.raise (.refl hr)
  | openHostFile canonicalPath flags host =>
    exact Post.bind ((openHostFile_spares hr _ _ _).mono (fun _ _ h => Post.pure h) fun _ _ h => h)
  | openRandomDevice flags =>
    exact Post.bind ((install_spares hr _ _ _).mono (fun _ _ h => Post.pure h) fun _ _ h => h)
  | openUnixDatagramSocket =>
    exact Post.bind ((install_spares hr _ _ _).mono (fun _ _ h => Post.pure h) fun _ _ h => h)
  | duplicate descriptor minimum closeOnExec =>
    unfold FileCall.run GuestFileSpace.duplicate
    refine Post.bind (Post.get ?_)
    cases fs.descriptors.reference descriptor with
    | none => exact Post.pure (.refl hr)
    | some description =>
      dsimp only
      cases fs.lowestFreeDescriptor minimum with
      | some other => exact Post.bind (Post.modify (Post.pure ⟨hr, .inl rfl⟩))
      | none => exact Post.raise (.refl hr)
  | setCloseOnExec descriptor enabled =>
    exact ⟨lt_of_lt_of_eq hr SharedTable.next_setMark.symm,
      .inl (congrFun SharedTable.cells_setMark r)⟩
  | setDirectoryIndex descriptor directoryIndex =>
    exact ⟨lt_of_lt_of_eq hr SharedTable.next_modify.symm,
      .inl (SharedTable.cells_modify.trans (if_neg hmoves))⟩
  | close descriptor =>
    refine ⟨lt_of_lt_of_eq hr SharedTable.next_remove.symm, ?_⟩
    cases hcell : (fs.descriptors.remove descriptor).cells r with
    | none => exact .inr rfl
    | some file => exact .inl (SharedTable.of_cells_remove hcell).1.symm

theorem after_spares (hr : r < fs.descriptors.next) {call : FileCall}
    (hmoves : ¬(DirectoryTurn.files call).Moves r fs) : Spares r fs (fs.after call) :=
  Post.final (x := call.run) (P := fun fs' => Spares r fs fs')
    (FileCall.run_spares hr call hmoves)

/-- The handler leaves the descriptors. -/
def KeepsSpace {α : Type} (x : Handler α) : Prop := ∀ task, (x task).2.fileSpace = task.fileSpace

theorem KeepsSpace.bind {α β : Type} {x : Handler α} {f : α → Handler β} (hx : KeepsSpace x)
    (hf : ∀ a, KeepsSpace (f a)) : KeepsSpace (x >>= f) := by
  intro task
  have hfirst := hx task
  rcases hrun : x task with ⟨e | a, task'⟩
  · rw [hrun] at hfirst
    rw [bind_error hrun]
    exact hfirst
  · rw [hrun] at hfirst
    rw [bind_ok hrun]
    exact (hf a task').trans hfirst

theorem keepsSpace_onMemory {α : Type} (x : Access α) : KeepsSpace (onMemory x) := by
  intro task
  unfold onMemory
  split <;> rfl

theorem keepsSpace_attempt {α : Type} (x : Access α) : KeepsSpace (attempt x) := by
  intro task
  unfold attempt
  split <;> rfl

theorem keepsSpace_reportBase (base resumeIndex : BitVec 64) (size : Nat) :
    KeepsSpace (reportBase base resumeIndex size) := by
  unfold reportBase
  split
  · exact fun _ => rfl
  · refine (keepsSpace_attempt _).bind fun written => ?_
    cases written <;> exact fun _ => rfl

theorem deliverEntries_space (descriptor : GuestFileDescriptor) (file : GuestOpenFile)
    (directory : HostDirectory) (task : FileTask) :
    ∃ directoryIndex, (deliverEntries descriptor file directory task).2.fileSpace =
      task.fileSpace.after (.setDirectoryIndex descriptor directoryIndex) := by
  unfold deliverEntries
  rw [bind_ok (x := Computation.get) (s := task) rfl]
  dsimp only
  obtain ⟨resumeIndex, output⟩ :=
    fillRecords file.directoryIndex (task.state.regs .rdx).toNat directory.entries 0 []
  refine ⟨resumeIndex, ?_⟩
  rw [bind_ok (x := setPosition descriptor resumeIndex) (s := task) rfl]
  exact (keepsSpace_onMemory _).bind (fun _ => keepsSpace_reportBase _ _ _) _

/-- What a call does to the descriptors. -/
theorem handleGetdirentries64_space (host : DirectoryHost) (state : GuestState) (s : AddressSpace)
    (fs : GuestFileSpace) : (handleGetdirentries64 host ⟨state, s, fs⟩).2.fileSpace = fs ∨
      ∃ directoryIndex, (handleGetdirentries64 host ⟨state, s, fs⟩).2.fileSpace =
        fs.after (.setDirectoryIndex (guestDescriptor (state.regs .rdi)) directoryIndex) := by
  unfold handleGetdirentries64
  rw [bind_ok (x := Computation.get) (s := (⟨state, s, fs⟩ : FileTask)) rfl]
  dsimp only
  cases fs.lookup (guestDescriptor (state.regs .rdi)) with
  | none => exact .inl rfl
  | some file =>
    dsimp only
    split
    · exact .inl rfl
    · split
      · exact .inl rfl
      · generalize validateAccess (state.regs .rsi).toNat (state.regs .rdx).toNat
          { write := true } = check
        have hkeeps := keepsSpace_attempt check ⟨state, s, fs⟩
        rcases hrun : attempt check ⟨state, s, fs⟩ with ⟨e | permitted, task⟩
        · rw [hrun] at hkeeps
          rw [bind_error hrun]
          exact .inl hkeeps
        · rw [hrun] at hkeeps
          rw [bind_ok hrun]
          cases permitted with
          | none => exact .inl hkeeps
          | some _ =>
            dsimp only at hkeeps ⊢
            cases host.opendir file.guestPath with
            | error hostError => exact .inl hkeeps
            | ok directory =>
              rw [← hkeeps]
              exact .inr (deliverEntries_space _ file directory task)

theorem handleLseek_space (host : DirectoryHost) (state : GuestState) (s : AddressSpace)
    (fs : GuestFileSpace) : (handleLseek host ⟨state, s, fs⟩).2.fileSpace = fs ∨
      (state.regs .rdx).setWidth 32 = (0 : BitVec 32) ∧
        (handleLseek host ⟨state, s, fs⟩).2.fileSpace = fs.after
          (.setDirectoryIndex (guestDescriptor (state.regs .rdi)) (state.regs .rsi)) := by
  unfold handleLseek
  rw [bind_ok (x := Computation.get) (s := (⟨state, s, fs⟩ : FileTask)) rfl]
  dsimp only
  cases fs.lookup (guestDescriptor (state.regs .rdi)) with
  | none => exact .inl rfl
  | some file =>
    dsimp only
    cases file.host with
    | none => exact .inl rfl
    | some hostDescriptor =>
      dsimp only
      split
      · cases host.lseek hostDescriptor (state.regs .rsi) ((state.regs .rdx).setWidth 32) <;>
          exact .inl rfl
      · split
        · next hset => exact .inr ⟨hset.1, rfl⟩
        · split <;> exact .inl rfl

/-- A turn is a call on the descriptors, or it leaves them. -/
theorem DirectoryTurn.after_cases (host : DirectoryHost) (fs : GuestFileSpace)
    (turn : DirectoryTurn) : turn.after host fs = fs ∨ ∃ call, turn.after host fs = fs.after call ∧
      ((DirectoryTurn.files call).Moves r fs → turn.Moves r fs ∨ ∃ state addressSpace,
        turn = getdirentries64 state addressSpace ∧
          fs.descriptors.reference (guestDescriptor (state.regs .rdi)) = some r) := by
  cases turn with
  | getdirentries64 state addressSpace =>
    rcases handleGetdirentries64_space host state addressSpace fs with hsame | ⟨v, hmoved⟩
    · exact .inl hsame
    · exact .inr ⟨_, hmoved, fun h => .inr ⟨state, addressSpace, rfl, h⟩⟩
  | lseek state addressSpace =>
    rcases handleLseek_space host state addressSpace fs with hsame | ⟨hset, hmoved⟩
    · exact .inl hsame
    · exact .inr ⟨_, hmoved, fun h => .inl ⟨h, hset⟩⟩
  | files call => exact .inr ⟨call, rfl, fun h => .inl h⟩

theorem DirectoryTurn.after_inv {handed : List Nat} (h : Inv handed fs) (host : DirectoryHost)
    (turn : DirectoryTurn) : ∃ handed', Inv handed' (turn.after host fs) := by
  rcases turn.after_cases host fs (r := 0) with hsame | ⟨call, hcall, -⟩
  · exact ⟨handed, by rwa [hsame]⟩
  · exact ⟨_, hcall ▸ (after_spec h call).1⟩

theorem afterTurns_inv {handed : List Nat} (h : Inv handed fs) (host : DirectoryHost)
    (turns : List DirectoryTurn) : ∃ handed', Inv handed' (afterTurns host fs turns) := by
  induction turns generalizing fs handed with
  | nil => exact ⟨handed, h⟩
  | cons turn turns ih =>
    obtain ⟨handed', hturn⟩ := turn.after_inv h host
    exact ih hturn

end

/-- The part of a list up to `stop` and the part from there to `n`. -/
theorem append_between {α : Type} (list : List α) {start stop n : Nat}
    (hstart : start ≤ stop ∨ list.length ≤ stop) (hstop : stop ≤ n ∨ list.length ≤ n) :
    (list.take stop).drop start ++ (list.take n).drop stop = (list.take n).drop start := by
  by_cases hend : list.length ≤ stop
  · have hall : list.take n = list := List.take_of_length_le (by omega)
    rw [List.take_of_length_le hend, hall, List.drop_of_length_le hend, List.append_nil]
  · have hle : stop ≤ n := by omega
    have hlength : (list.take stop).length = stop := List.length_take_of_le (by omega)
    have hsplit : list.take n = list.take stop ++ (list.take n).drop stop := by
      have hboth := List.take_append_drop stop (list.take n)
      rwa [List.take_take, Nat.min_eq_left hle, eq_comm] at hboth
    calc (list.take stop).drop start ++ (list.take n).drop stop
        = (list.take stop ++ (list.take n).drop stop).drop start :=
          (List.drop_append_of_le_length (by omega)).symm
      _ = (list.take n).drop start := by rw [← hsplit]

/-- What was seen of a directory since its position was `start`, and the position now. -/
structure DirectoryScan (r : Nat) (file : GuestOpenFile) (directory : HostDirectory)
    (seen : List DirectoryRecord) (fs : GuestFileSpace) : Prop where
  inv : ∃ handed, GuestFileSpace.Inv handed fs
  made : r < fs.descriptors.next
  exact : ∃ stop, seen = (directory.records.take stop).drop file.directoryIndex.toNat ∧
    ∀ file', fs.descriptors.cells r = some file' →
      file' = { file with directoryIndex := file'.directoryIndex } ∧
      file'.directoryIndex.toNat = stop ∧
      (file.directoryIndex.toNat ≤ stop ∨ directory.records.length ≤ stop)

section

variable {host : DirectoryHost} {r : Nat} {file : GuestOpenFile} {directory : HostDirectory}
  {seen : List DirectoryRecord} {fs : GuestFileSpace}

theorem HostDirectory.length_records (directory : HostDirectory) :
    directory.records.length = directory.entries.length := by
  rw [records, List.length_map, List.length_zipIdx]

theorem DirectoryScan.start {handed : List Nat} (hinv : GuestFileSpace.Inv handed fs)
    {descriptor : GuestFileDescriptor} (hr : fs.descriptors.reference descriptor = some r)
    (hfile : fs.lookup descriptor = some file) : DirectoryScan r file directory [] fs := by
  obtain ⟨hmade, file', hcell⟩ := hinv.sound.cell hr
  rw [GuestFileSpace.lookup, SharedTable.lookup, hr, Option.bind_some, hcell] at hfile
  obtain rfl := Option.some.inj hfile
  refine ⟨⟨handed, hinv⟩, hmade, file'.directoryIndex.toNat, ?_, fun file'' hcell'' => ?_⟩
  · rw [List.drop_of_length_le (List.length_take_le _ _)]
  · obtain rfl := Option.some.inj (hcell.symm.trans hcell'')
    exact ⟨rfl, rfl, .inl (le_refl _)⟩

/-- What a call through the description delivers. -/
theorem DirectoryScan.reads {state : GuestState} {s : AddressSpace}
    (h : DirectoryScan r file directory seen fs)
    (hb : Buffers state s) (hdir : isHostDirectory host file = true)
    (hopen : host.opendir file.guestPath = .ok directory)
    (hr : fs.descriptors.reference (guestDescriptor (state.regs .rdi)) = some r) :
    DirectoryScan r file directory
        (seen ++ readReply (state.regs .rsi) (handleGetdirentries64 host ⟨state, s, fs⟩))
        (handleGetdirentries64 host ⟨state, s, fs⟩).2.fileSpace ∧
      (repliesZero (handleGetdirentries64 host ⟨state, s, fs⟩) = true →
        1048 ≤ (state.regs .rdx).toNat →
        seen ++ readReply (state.regs .rsi) (handleGetdirentries64 host ⟨state, s, fs⟩) =
          directory.records.drop file.directoryIndex.toNat) := by
  obtain ⟨⟨handed, hinv⟩, hmade, stop, hseen, hcells⟩ := h
  obtain ⟨-, file', hcell⟩ := hinv.sound.cell hr
  obtain ⟨hsame, hposition, hstart⟩ := hcells file' hcell
  have hfile : fs.lookup (guestDescriptor (state.regs .rdi)) = some file' := by
    rw [GuestFileSpace.lookup, SharedTable.lookup, hr, Option.bind_some, hcell]
  have hdir' : isHostDirectory host file' = true := by rw [hsame]; exact hdir
  have hopen' : host.opendir file'.guestPath = .ok directory := by rw [hsame]; exact hopen
  rcases handleGetdirentries64_spec hb hfile hdir' hopen' with hrefused | ⟨n, hdelivered⟩
  · rw [hrefused.space, hrefused.seen, List.append_nil]
    exact ⟨⟨⟨handed, hinv⟩, hmade, stop, hseen, hcells⟩, fun hzero => by
      rw [hrefused.ends] at hzero
      cases hzero⟩
  · have hle := hdelivered.le
    have hfew := directory.few
    have hn : (BitVec.ofNat 64 n).toNat = n := Nat.mod_eq_of_lt (by omega)
    have hlength := directory.length_records
    have hnext : stop ≤ n ∨ directory.records.length ≤ n := by
      by_cases hlt : n < directory.entries.length
      · exact .inl (hposition ▸ hdelivered.from_start hlt)
      · exact .inr (by omega)
    have hall : seen ++ readReply (state.regs .rsi) (handleGetdirentries64 host ⟨state, s, fs⟩) =
        (directory.records.take n).drop file.directoryIndex.toNat := by
      rw [hdelivered.seen, hseen, hposition, append_between _ hstart hnext]
    refine ⟨⟨?_, ?_, n, hall, fun file'' hcell'' => ?_⟩, fun hzero hroom => ?_⟩
    · rw [hdelivered.space]
      exact ⟨_, (GuestFileSpace.after_spec hinv _).1⟩
    · rw [hdelivered.space]
      exact lt_of_lt_of_eq hmade SharedTable.next_modify.symm
    · rw [hdelivered.space] at hcell''
      replace hcell'' : (fs.descriptors.modify (guestDescriptor (state.regs .rdi)) fun file =>
        { file with directoryIndex := BitVec.ofNat 64 n }).cells r = some file'' := hcell''
      rw [SharedTable.cells_modify, if_pos hr, hcell] at hcell''
      obtain rfl := Option.some.inj hcell''
      refine ⟨by rw [hsame], hn, ?_⟩
      omega
    · rw [hall, hdelivered.ends hzero hroom, ← hlength, List.take_length]

/-- A step of a run. -/
theorem DirectoryScan.step (h : DirectoryScan r file directory seen fs) {turn : DirectoryTurn}
    (hb : turn.Buffered) (hdir : isHostDirectory host file = true)
    (hopen : host.opendir file.guestPath = .ok directory) (hmoves : ¬turn.Moves r fs) :
    DirectoryScan r file directory (seen ++ turn.seen host r fs) (turn.after host fs) := by
  by_cases hreads : ∃ state s, turn = .getdirentries64 state s ∧
      fs.descriptors.reference (guestDescriptor (state.regs .rdi)) = some r
  · obtain ⟨state, s, rfl, hr⟩ := hreads
    have hseen : (DirectoryTurn.getdirentries64 state s).seen host r fs =
        readReply (state.regs .rsi) (handleGetdirentries64 host ⟨state, s, fs⟩) := if_pos hr
    rw [hseen]
    exact (h.reads hb hdir hopen hr).1
  · have hnothing : turn.seen host r fs = [] := by
      cases turn with
      | getdirentries64 state s => exact if_neg fun hr => hreads ⟨state, s, rfl, hr⟩
      | lseek => rfl
      | files => rfl
    obtain ⟨⟨handed, hinv⟩, hmade, stop, hseen, hcells⟩ := h
    have hspares : Spares r fs (turn.after host fs) := by
      rcases turn.after_cases host fs (r := r) with hsame | ⟨call, hcall, hmoved⟩
      · rw [hsame]
        exact .refl hmade
      · exact hcall ▸ after_spares hmade fun h => (hmoved h).elim hmoves hreads
    refine ⟨turn.after_inv hinv host, hspares.made, stop, ?_, fun file' hcell => ?_⟩
    · rw [hnothing, List.append_nil, hseen]
    · rcases hspares.cell with hcell' | hcell'
      · exact hcells file' (hcell' ▸ hcell)
      · rw [hcell'] at hcell
        cases hcell

theorem DirectoryScan.run (h : DirectoryScan r file directory seen fs) {turns : List DirectoryTurn}
    (hb : ∀ turn ∈ turns, turn.Buffered) (hdir : isHostDirectory host file = true)
    (hopen : host.opendir file.guestPath = .ok directory) (hmoves : Unmoved host r fs turns) :
    DirectoryScan r file directory (seen ++ seenThrough host r fs turns)
      (afterTurns host fs turns) := by
  induction turns generalizing seen fs with
  | nil => rwa [seenThrough, List.append_nil]
  | cons turn turns ih =>
    have hturn := h.step (hb turn List.mem_cons_self) hdir hopen hmoves.1
    have hrest := ih hturn (fun turn hmem => hb turn (List.mem_cons_of_mem _ hmem)) hmoves.2
    rwa [List.append_assoc] at hrest

theorem DirectoryScan.isPrefix (h : DirectoryScan r file directory seen fs) :
    seen <+: directory.records.drop file.directoryIndex.toNat := by
  obtain ⟨stop, hseen, -⟩ := h.exact
  rw [hseen, List.drop_take]
  exact List.take_prefix _ _

theorem seenThrough_append (fs : GuestFileSpace) (turns turns' : List DirectoryTurn) :
    seenThrough host r fs (turns ++ turns') =
      seenThrough host r fs turns ++ seenThrough host r (afterTurns host fs turns) turns' := by
  induction turns generalizing fs with
  | nil => rfl
  | cons turn turns ih =>
    rw [List.cons_append, seenThrough, seenThrough, ih, List.append_assoc]
    rfl

theorem Unmoved.before {fs : GuestFileSpace} {turns turns' : List DirectoryTurn}
    (h : Unmoved host r fs (turns ++ turns')) : Unmoved host r fs turns := by
  induction turns generalizing fs with
  | nil => trivial
  | cons turn turns ih => exact ⟨h.1, ih h.2⟩

/-- The registers of a call on a buffer across two pages. -/
def bufferCall (descriptor byteCount : BitVec 64) : GuestState where
  regs
    | .rdi => descriptor
    | .rsi => 0x1FF0
    | .rdx => byteCount
    | _ => 0
  rip := 0
  rflags := 2
  xmm _ := (0, 0)
  ymmUpper _ := (0, 0)
  gsBase := 0

/-- A directory of three entries. -/
def threeEntries : HostDirectory where
  entries := [⟨11, 4, [46], by decide⟩, ⟨12, 4, [46, 46], by decide⟩, ⟨13, 8, [97], by decide⟩]
  few := by decide

/-- The host has no other directory. -/
def threeEntriesHost : DirectoryHost where
  isDirectory _ := true
  opendir _ := .ok threeEntries
  lseek _ _ _ := .error 29

/-- The directory is opened, and its descriptor duplicated. -/
def openedDirectory : List DirectoryTurn :=
  [.files (.openHostFile "/d" 0 (some 20)), .files (.duplicate 1 0 false)]

/-- One record, then the rest through the duplicate, then none. -/
def readThrice : List DirectoryTurn :=
  [.getdirentries64 (bufferCall 1 40) (afterAll {} adjacentPages),
    .getdirentries64 (bufferCall 3 2000) (afterAll {} adjacentPages),
    .getdirentries64 (bufferCall 1 2000) (afterAll {} adjacentPages)]

theorem buffers_adjacentPages (descriptor byteCount : BitVec 64) :
    Buffers (bufferCall descriptor byteCount) (afterAll {} adjacentPages) := by
  have hplain : ∀ m ∈ (afterAll {} adjacentPages).mappings, m.lazyFileTransform = none ∧
      m.permissions.has { read := true } = true ∧ m.readableBytes.size = 0 := by
    decide +kernel
  refine ⟨regular_afterAll ⟨trivial, trivial, trivial⟩, ?_, ?_, fun hne => absurd rfl hne⟩
  · intro m hm o _ _ _
    simp [pageFails, (hplain m hm).1]
  · rintro k - ⟨i, m, hfound⟩
    obtain ⟨-, hread, hdense⟩ := hplain m hfound.mem
    exact ⟨i, m, ⟨hfound.index, hfound.base, hfound.limit, hread⟩, .inl hdense⟩

theorem HostDirectory.seekOffset_eq {i : Nat} {record : DirectoryRecord}
    (hrecord : directory.records[i]? = some record) : record.seekOffset.toNat = i := by
  have hfew := directory.few
  rw [HostDirectory.records, List.getElem?_map, List.getElem?_zipIdx] at hrecord
  obtain ⟨p, hp, rfl⟩ := Option.map_eq_some_iff.mp hrecord
  obtain ⟨entry, hentry, rfl⟩ := Option.map_eq_some_iff.mp hp
  have hlt : i < directory.entries.length := (List.getElem?_eq_some_iff.mp hentry).1
  rw [Nat.zero_add]
  exact Nat.mod_eq_of_lt (by omega)

theorem handleLseek_sets {state : GuestState} (s : AddressSpace)
    (hfile : fs.lookup (guestDescriptor (state.regs .rdi)) = some file)
    (hdir : isHostDirectory host file = true)
    (hwhence : (state.regs .rdx).setWidth 32 = (0 : BitVec 32))
    (hoffset : 0 ≤ (state.regs .rsi).toInt) :
    (handleLseek host ⟨state, s, fs⟩).2.fileSpace = fs.after
      (.setDirectoryIndex (guestDescriptor (state.regs .rdi)) (state.regs .rsi)) := by
  unfold handleLseek
  rw [bind_ok (x := Computation.get) (s := (⟨state, s, fs⟩ : FileTask)) rfl]
  simp only [hfile]
  cases hhost : file.host with
  | none =>
    rw [isHostDirectory, hhost] at hdir
    cases hdir
  | some hostDescriptor =>
    simp only [hdir, Bool.not_true, Bool.false_eq_true, if_false]
    rw [if_pos ⟨hwhence, hoffset⟩]
    rfl

/-- A seek to the third record. -/
def seekThird : GuestState :=
  { bufferCall 3 0 with
    regs
      | .rdi => 3
      | .rsi => 2
      | _ => 0 }

end

end Rosa.Darwin
