import Rosa.Logic.Computation
import Rosa.Logic.SharedTable

/-!
# The descriptors of the guest task

`darwin/Files.cpp`. A descriptor refers to an open file description, which duplicated descriptors
share; the description owns a host descriptor, if it has one, and closes it when the last
descriptor goes. `Inv` is what every call keeps : descriptors are in range, descriptions are
numbered, and a host descriptor that was handed to the space is owned by one description or closed,
once.

A host descriptor is a number that stands for one call of the host that opened it. Paths are
strings; what a path leads to is decided elsewhere.
-/

namespace Rosa.Darwin

open Rosa.Computation

/-- `GuestFileDescriptor`. -/
abbrev GuestFileDescriptor := Int

/-- `GuestFileKind`. -/
inductive GuestFileKind
  | currentDirectory | rootDirectory | syntheticDirectory | hostReadOnlyFile | standardStream
  | randomDevice | unixDatagramSocket
  deriving DecidableEq, Repr

/-- `GuestOpenFile`. -/
structure GuestOpenFile where
  descriptionId : BitVec 64 := 0
  kind : GuestFileKind
  guestPath : String := ""
  flags : BitVec 32 := 0
  directoryIndex : BitVec 64 := 0
  host : Option Nat := none
  deriving DecidableEq, Repr

/-- `hostBacked`. -/
def GuestOpenFile.hostBacked (file : GuestOpenFile) : Bool := file.host.isSome

/-- `maximumGuestDescriptors`. -/
def maximumGuestDescriptors : Int := 10240

/-- `GuestFileSpace`; the mark of a descriptor is `closeOnExec`. -/
structure GuestFileSpace where
  currentDirectory : String
  descriptors : SharedTable GuestFileDescriptor Bool GuestOpenFile := {}
  nextDescriptionId : BitVec 64 := 1

/-- `is_absolute`. -/
def isAbsolute (path : String) : Bool := path.toList.head? == some '/'

namespace GuestFileSpace

/-! ## Operations -/

/-- The descriptors, in order. -/
def taken (fs : GuestFileSpace) : List GuestFileDescriptor :=
  fs.descriptors.entries.keys.insertionSort (· ≤ ·)

/-- The loop of `lowestFreeDescriptor`. -/
def skipTaken (candidate : Int) : List GuestFileDescriptor → Int
  | descriptor :: rest =>
    if descriptor = candidate then skipTaken (candidate + 1) rest else candidate
  | [] => candidate

/-- `lowestFreeDescriptor`, without a descriptor where it throws. -/
def lowestFreeDescriptor (fs : GuestFileSpace) (minimum : Int) : Option GuestFileDescriptor :=
  let candidate := max minimum 0
  let free := skipTaken candidate (fs.taken.dropWhile (· < candidate))
  if free ≥ maximumGuestDescriptors then none else some free

/-- The message of `lowestFreeDescriptor`. -/
def exhausted : String := "guest file-descriptor namespace exhausted"

/-- The space with a new description, which gets the next number unless it has one. -/
def installed (fs : GuestFileSpace) (descriptor : GuestFileDescriptor) (file : GuestOpenFile)
    (closeOnExec : Bool) : GuestFileSpace :=
  if file.descriptionId = 0 then
    { fs with
      descriptors := fs.descriptors.add descriptor closeOnExec
        { file with descriptionId := fs.nextDescriptionId }
      nextDescriptionId := fs.nextDescriptionId + 1 }
  else { fs with descriptors := fs.descriptors.add descriptor closeOnExec file }

/-- `install`; if it throws, the file is destroyed. -/
def install (file : GuestOpenFile) (closeOnExec : Bool) (minimum : Int) :
    Computation GuestFileSpace String GuestFileDescriptor := do
  let fs ← get
  match fs.lowestFreeDescriptor minimum with
  | some descriptor =>
    modify fun fs => fs.installed descriptor file closeOnExec
    pure descriptor
  | none =>
    modify fun fs => { fs with descriptors := fs.descriptors.reject file }
    raise exhausted

/-- `openRootDirectory`. -/
def openRootDirectory (flags : BitVec 32) :
    Computation GuestFileSpace String GuestFileDescriptor :=
  install { kind := .rootDirectory, guestPath := "/", flags } false 0

/-- `openSyntheticDirectory`. -/
def openSyntheticDirectory (guestPath : String) (flags : BitVec 32) :
    Computation GuestFileSpace String GuestFileDescriptor :=
  if isAbsolute guestPath then install { kind := .syntheticDirectory, guestPath, flags } false 0
  else raise "synthetic guest directory path must be absolute"

/-- `openHostFile`; without a host descriptor it is not valid. -/
def openHostFile (canonicalPath : String) (flags : BitVec 32) (host : Option Nat) :
    Computation GuestFileSpace String GuestFileDescriptor := do
  let fs ← get
  match host with
  | none => raise "hosted guest file requires an open host descriptor"
  | some _ =>
    let kind := if canonicalPath = fs.currentDirectory then .currentDirectory else .hostReadOnlyFile
    install { kind, guestPath := canonicalPath, flags, host } false 0

/-- `openCurrentDirectory`, with what the host opened. -/
def openCurrentDirectory (flags : BitVec 32) (host : Option Nat) :
    Computation GuestFileSpace String GuestFileDescriptor := do
  let fs ← get
  match host with
  | none => raise "cannot open the guest current directory on the host"
  | some _ => openHostFile fs.currentDirectory flags host

/-- `openRandomDevice`. -/
def openRandomDevice (flags : BitVec 32) : Computation GuestFileSpace String GuestFileDescriptor :=
  install { kind := .randomDevice, guestPath := "/dev/urandom", flags } false 0

/-- `openUnixDatagramSocket`. -/
def openUnixDatagramSocket : Computation GuestFileSpace String GuestFileDescriptor :=
  install { kind := .unixDatagramSocket } false 0

/-- `duplicate`. -/
def duplicate (descriptor : GuestFileDescriptor) (minimum : Int) (closeOnExec : Bool) :
    Computation GuestFileSpace String (Option GuestFileDescriptor) := do
  let fs ← get
  match fs.descriptors.reference descriptor with
  | none => pure none
  | some description =>
    match fs.lowestFreeDescriptor minimum with
    | some duplicateDescriptor =>
      modify fun fs =>
        { fs with
          descriptors := fs.descriptors.share duplicateDescriptor closeOnExec description }
      pure (some duplicateDescriptor)
    | none => raise exhausted

/-- `lookup`. -/
def lookup (fs : GuestFileSpace) (descriptor : GuestFileDescriptor) : Option GuestOpenFile :=
  fs.descriptors.lookup descriptor

/-- `closeOnExec`. -/
def closeOnExec (fs : GuestFileSpace) (descriptor : GuestFileDescriptor) : Option Bool :=
  fs.descriptors.mark descriptor

/-- `setCloseOnExec`. -/
def setCloseOnExec (descriptor : GuestFileDescriptor) (enabled : Bool) :
    Computation GuestFileSpace String Bool := do
  let fs ← get
  modify fun fs => { fs with descriptors := fs.descriptors.setMark descriptor enabled }
  pure (fs.descriptors.reference descriptor).isSome

/-- `lookupMutable`, which the callers use to move the position in a directory. -/
def setDirectoryIndex (descriptor : GuestFileDescriptor) (directoryIndex : BitVec 64) :
    Computation GuestFileSpace String Bool := do
  let fs ← get
  modify fun fs =>
    { fs with
      descriptors := fs.descriptors.modify descriptor fun file => { file with directoryIndex } }
  pure (fs.descriptors.reference descriptor).isSome

/-- `close`. -/
def close (descriptor : GuestFileDescriptor) : Computation GuestFileSpace String Bool := do
  let fs ← get
  modify fun fs => { fs with descriptors := fs.descriptors.remove descriptor }
  pure (fs.descriptors.reference descriptor).isSome

/-- What the host gives for a standard stream : a duplicate, and its status flags if it tells. -/
structure StandardStream where
  duplicate : Nat
  statusFlags : Option (BitVec 32)

/-- One turn of `inheritStandardStreams`. -/
def inheritStandardStream (stream : Int) (given : Option StandardStream) :
    Computation GuestFileSpace String Unit :=
  match given with
  | none => pure ()
  | some given => do
    let _ ← install { kind := .standardStream, flags := given.statusFlags.getD 0,
                      host := some given.duplicate } false stream
    pure ()

/-- `inheritStandardStreams`. -/
def inheritStandardStreams (stdin stdout stderr : Option StandardStream) :
    Computation GuestFileSpace String Unit := do
  inheritStandardStream 0 stdin
  inheritStandardStream 1 stdout
  inheritStandardStream 2 stderr

/-- The constructor. -/
def create (currentDirectory : String) (stdin stdout stderr : Option StandardStream) :
    Except String GuestFileSpace :=
  if isAbsolute currentDirectory then
    match inheritStandardStreams stdin stdout stderr { currentDirectory } with
    | (.ok _, fs) => .ok fs
    | (.error message, _) => .error message
  else .error "guest current-directory backing must be absolute"

/-- The calls of a descriptor table, as the system calls make them. -/
inductive FileCall
  | openCurrentDirectory (flags : BitVec 32) (host : Option Nat)
  | openRootDirectory (flags : BitVec 32)
  | openSyntheticDirectory (guestPath : String) (flags : BitVec 32)
  | openHostFile (canonicalPath : String) (flags : BitVec 32) (host : Option Nat)
  | openRandomDevice (flags : BitVec 32)
  | openUnixDatagramSocket
  | duplicate (descriptor : GuestFileDescriptor) (minimum : Int) (closeOnExec : Bool)
  | setCloseOnExec (descriptor : GuestFileDescriptor) (enabled : Bool)
  | setDirectoryIndex (descriptor : GuestFileDescriptor) (directoryIndex : BitVec 64)
  | close (descriptor : GuestFileDescriptor)

/-- A call, with the descriptor that it makes. -/
def FileCall.run : FileCall → Computation GuestFileSpace String (Option GuestFileDescriptor)
  | .openCurrentDirectory flags host => do
    pure (some (← GuestFileSpace.openCurrentDirectory flags host))
  | .openRootDirectory flags => do pure (some (← GuestFileSpace.openRootDirectory flags))
  | .openSyntheticDirectory guestPath flags => do
    pure (some (← GuestFileSpace.openSyntheticDirectory guestPath flags))
  | .openHostFile canonicalPath flags host => do
    pure (some (← GuestFileSpace.openHostFile canonicalPath flags host))
  | .openRandomDevice flags => do pure (some (← GuestFileSpace.openRandomDevice flags))
  | .openUnixDatagramSocket => do pure (some (← GuestFileSpace.openUnixDatagramSocket))
  | .duplicate descriptor minimum closeOnExec =>
    GuestFileSpace.duplicate descriptor minimum closeOnExec
  | .setCloseOnExec descriptor enabled => do
    let _ ← GuestFileSpace.setCloseOnExec descriptor enabled
    pure none
  | .setDirectoryIndex descriptor directoryIndex => do
    let _ ← GuestFileSpace.setDirectoryIndex descriptor directoryIndex
    pure none
  | .close descriptor => do
    let _ ← GuestFileSpace.close descriptor
    pure none

/-- The space after a call, returned or thrown. -/
def after (fs : GuestFileSpace) (call : FileCall) : GuestFileSpace := (call.run fs).2

/-- The space after a sequence of calls. -/
def afterAll (fs : GuestFileSpace) (calls : List FileCall) : GuestFileSpace := calls.foldl after fs

/-- The host descriptors that a call hands over. -/
def FileCall.handed : FileCall → List Nat
  | .openCurrentDirectory _ host | .openHostFile _ _ host => host.toList
  | _ => []

/-- The descriptor that a call closes. -/
def FileCall.closing : FileCall → Option GuestFileDescriptor
  | .close descriptor => some descriptor
  | _ => none

/-- The least descriptor that a call may make. -/
def FileCall.minimum : FileCall → Int
  | .duplicate _ minimum _ => minimum
  | _ => 0

/-- The host descriptors that were closed. -/
def closed (fs : GuestFileSpace) : List Nat := fs.descriptors.released.filterMap GuestOpenFile.host

/-- The host descriptors that descriptions own. -/
def owned (fs : GuestFileSpace) : List Nat := fs.descriptors.held.filterMap GuestOpenFile.host

/-! ## The lowest free descriptor -/

variable {fs fs' : GuestFileSpace} {handed : List Nat} {file : GuestOpenFile}
  {descriptor other : GuestFileDescriptor} {minimum : Int}

theorem mem_taken : descriptor ∈ fs.taken ↔ fs.descriptors.reference descriptor ≠ none := by
  rw [taken, List.mem_insertionSort, ← AList.mem_keys, ← AList.lookup_isSome,
    Option.isSome_iff_ne_none, SharedTable.reference, Ne, Ne, Option.map_eq_none_iff]

theorem taken_pairwise (fs : GuestFileSpace) : fs.taken.Pairwise (· < ·) := by
  have hsorted := List.pairwise_insertionSort (· ≤ ·) fs.descriptors.entries.keys
  have hnodup : fs.taken.Nodup :=
    (List.perm_insertionSort _ _).nodup_iff.mpr fs.descriptors.entries.keys_nodup
  exact (hsorted.and hnodup).imp fun ⟨hle, hne⟩ => lt_of_le_of_ne hle hne

/-- The loop stops at the first number that is not in the list. -/
theorem skipTaken_spec {candidate : Int} {rest : List GuestFileDescriptor}
    (hsorted : rest.Pairwise (· < ·)) (hfrom : ∀ descriptor ∈ rest, candidate ≤ descriptor) :
    candidate ≤ skipTaken candidate rest ∧ skipTaken candidate rest ∉ rest ∧
      ∀ other, candidate ≤ other → other < skipTaken candidate rest → other ∈ rest := by
  induction rest generalizing candidate with
  | nil => exact ⟨le_refl _, by simp, fun other hlow hhigh => absurd hlow (not_le.mpr hhigh)⟩
  | cons descriptor rest ih =>
    obtain ⟨hhead, htail⟩ := List.pairwise_cons.mp hsorted
    unfold skipTaken
    split
    · next hsame =>
      subst hsame
      obtain ⟨hle, hnot, hall⟩ := ih htail fun other hmem => hhead other hmem
      refine ⟨by omega, ?_, fun other hlow hhigh => ?_⟩
      · rw [List.mem_cons, not_or]
        exact ⟨by omega, hnot⟩
      · by_cases hsame : other = descriptor
        · exact hsame ▸ List.mem_cons_self
        · exact List.mem_cons_of_mem _ (hall other (by omega) hhigh)
    · next hne =>
      have hlt : candidate < descriptor :=
        lt_of_le_of_ne (hfrom _ List.mem_cons_self) (Ne.symm hne)
      refine ⟨le_refl _, ?_, fun other hlow hhigh => absurd hlow (not_le.mpr hhigh)⟩
      rw [List.mem_cons, not_or]
      exact ⟨ne_of_lt hlt, fun hmem => absurd (hhead _ hmem) (not_lt.mpr (le_of_lt hlt))⟩

/-- What the loop of `lowestFreeDescriptor` comes to. -/
theorem skipTaken_taken (fs : GuestFileSpace) (candidate : Int) :
    candidate ≤ skipTaken candidate (fs.taken.dropWhile (· < candidate)) ∧
      fs.descriptors.reference (skipTaken candidate (fs.taken.dropWhile (· < candidate))) = none ∧
      ∀ other, candidate ≤ other →
        other < skipTaken candidate (fs.taken.dropWhile (· < candidate)) →
        fs.descriptors.reference other ≠ none := by
  have hsorted := fs.taken_pairwise
  have hfilter : fs.taken.dropWhile (· < candidate) = fs.taken.filter (candidate ≤ ·) := by
    generalize fs.taken = list at hsorted
    induction list with
    | nil => rfl
    | cons descriptor rest ih =>
      obtain ⟨hhead, htail⟩ := List.pairwise_cons.mp hsorted
      by_cases hlt : descriptor < candidate
      · rw [List.dropWhile_cons_of_pos (by simpa using hlt),
          List.filter_cons_of_neg (by simpa using hlt), ih htail]
      · rw [List.dropWhile_cons_of_neg (by simpa using hlt), eq_comm, List.filter_eq_self]
        intro other hmem
        rcases List.mem_cons.mp hmem with rfl | hmem
        · simpa using hlt
        · exact decide_eq_true (le_trans (not_lt.mp hlt) (le_of_lt (hhead other hmem)))
  rw [hfilter]
  obtain ⟨hle, hnot, hall⟩ := skipTaken_spec (hsorted.filter _)
    fun descriptor hmem => of_decide_eq_true (List.mem_filter.mp hmem).2
  refine ⟨hle, ?_, fun other hlow hhigh => ?_⟩
  · by_contra hne
    exact hnot (List.mem_filter.mpr ⟨mem_taken.mpr hne, decide_eq_true hle⟩)
  · exact mem_taken.mp (List.mem_filter.mp (hall other hlow hhigh)).1

theorem lowestFreeDescriptor_eq_some (h : fs.lowestFreeDescriptor minimum = some descriptor) :
    fs.descriptors.reference descriptor = none ∧ max minimum 0 ≤ descriptor ∧
      descriptor < maximumGuestDescriptors ∧
      ∀ other, max minimum 0 ≤ other → other < descriptor →
        fs.descriptors.reference other ≠ none := by
  obtain ⟨hle, hfree, hall⟩ := fs.skipTaken_taken (max minimum 0)
  simp only [lowestFreeDescriptor] at h
  split at h
  · cases h
  · next hlt =>
    obtain rfl := Option.some.inj h
    exact ⟨hfree, hle, not_le.mp hlt, hall⟩

theorem lowestFreeDescriptor_eq_none (h : fs.lowestFreeDescriptor minimum = none)
    (other : Int) (hlow : max minimum 0 ≤ other) (hhigh : other < maximumGuestDescriptors) :
    fs.descriptors.reference other ≠ none := by
  obtain ⟨-, -, hall⟩ := fs.skipTaken_taken (max minimum 0)
  simp only [lowestFreeDescriptor] at h
  split at h
  · next hge => exact hall other hlow (lt_of_lt_of_le hhigh hge)
  · cases h

/-! ## What every call keeps -/

/-- The table is in order after the host descriptors `handed` were handed over. -/
structure Inv (handed : List Nat) (fs : GuestFileSpace) : Prop where
  sound : fs.descriptors.Sound
  range : ∀ {descriptor r}, fs.descriptors.reference descriptor = some r →
    0 ≤ descriptor ∧ descriptor < maximumGuestDescriptors
  numbered : ∀ {r file}, fs.descriptors.cells r = some file →
    file.descriptionId = BitVec.ofNat 64 (r + 1)
  next : fs.nextDescriptionId = BitVec.ofNat 64 (fs.descriptors.next + 1)
  accounts : ∃ given, SharedTable.Accounts GuestOpenFile.host given fs.descriptors ∧
    given.filterMap id = handed

theorem Inv.empty (currentDirectory : String) : Inv [] { currentDirectory } where
  sound := .empty
  range := by
    intro descriptor r h
    simp [SharedTable.reference] at h
  numbered h := by cases h
  next := rfl
  accounts := ⟨[], .empty _, rfl⟩

theorem installed_eq (hfile : file.descriptionId = 0) (closeOnExec : Bool) :
    fs.installed descriptor file closeOnExec =
      { fs with
        descriptors := fs.descriptors.add descriptor closeOnExec
          { file with descriptionId := fs.nextDescriptionId }
        nextDescriptionId := fs.nextDescriptionId + 1 } := if_pos hfile

theorem Inv.installed (h : Inv handed fs) (hfile : file.descriptionId = 0)
    (hfree : fs.descriptors.reference descriptor = none) (hlow : 0 ≤ descriptor)
    (hhigh : descriptor < maximumGuestDescriptors) (closeOnExec : Bool) :
    Inv (handed ++ file.host.toList) (fs.installed descriptor file closeOnExec) := by
  rw [installed_eq hfile]
  constructor
  case sound => exact h.sound.add hfree _ _
  case range =>
    intro other r hr
    rw [SharedTable.reference_add] at hr
    split at hr
    · next hsame => exact hsame ▸ ⟨hlow, hhigh⟩
    · exact h.range hr
  case numbered =>
    intro r file' hr
    replace hr : Function.update fs.descriptors.cells fs.descriptors.next
      (some { file with descriptionId := fs.nextDescriptionId }) r = some file' := hr
    by_cases hnew : r = fs.descriptors.next
    · rw [hnew, Function.update_self] at hr
      obtain rfl := Option.some.inj hr
      exact hnew ▸ h.next
    · rw [Function.update_of_ne hnew] at hr
      exact h.numbered hr
  case next =>
    show fs.nextDescriptionId + 1 = BitVec.ofNat 64 (fs.descriptors.next + 1 + 1)
    rw [h.next]
    exact (BitVec.ofNat_add (fs.descriptors.next + 1) 1).symm
  case accounts =>
    obtain ⟨given, haccounts, hgiven⟩ := h.accounts
    refine ⟨_, haccounts.add descriptor closeOnExec _, ?_⟩
    rw [List.filterMap_append, hgiven]
    cases file.host <;> rfl

theorem Inv.rejected (h : Inv handed fs) (file : GuestOpenFile) :
    Inv (handed ++ file.host.toList)
      { fs with descriptors := fs.descriptors.reject file } where
  sound := h.sound.reject file
  range := h.range
  numbered := h.numbered
  next := h.next
  accounts := by
    obtain ⟨given, haccounts, hgiven⟩ := h.accounts
    refine ⟨_, haccounts.reject file, ?_⟩
    rw [List.filterMap_append, hgiven]
    cases file.host <;> rfl

theorem Inv.shared (h : Inv handed fs) (hfree : fs.descriptors.reference descriptor = none)
    (hlow : 0 ≤ descriptor) (hhigh : descriptor < maximumGuestDescriptors) {r : Nat}
    (hr : fs.descriptors.reference other = some r) (closeOnExec : Bool) :
    Inv handed { fs with descriptors := fs.descriptors.share descriptor closeOnExec r } where
  sound := h.sound.share hfree hr closeOnExec
  range := by
    intro other r' hr'
    rw [SharedTable.reference_share] at hr'
    split at hr'
    · next hsame => exact hsame ▸ ⟨hlow, hhigh⟩
    · exact h.range hr'
  numbered := h.numbered
  next := h.next
  accounts := h.accounts

theorem Inv.marked (h : Inv handed fs) (descriptor : GuestFileDescriptor) (enabled : Bool) :
    Inv handed { fs with descriptors := fs.descriptors.setMark descriptor enabled } where
  sound := h.sound.setMark _ _
  range := by
    intro other r hr
    rw [SharedTable.reference_setMark] at hr
    exact h.range hr
  numbered := by
    intro r file hr
    rw [SharedTable.cells_setMark] at hr
    exact h.numbered hr
  next := by
    rw [SharedTable.next_setMark]
    exact h.next
  accounts := by
    obtain ⟨given, haccounts, hgiven⟩ := h.accounts
    exact ⟨given, haccounts.setMark _ _, hgiven⟩

theorem Inv.modified (h : Inv handed fs) (descriptor : GuestFileDescriptor)
    {f : GuestOpenFile → GuestOpenFile} (hid : ∀ file, (f file).descriptionId = file.descriptionId)
    (hhost : ∀ file, (f file).host = file.host) :
    Inv handed { fs with descriptors := fs.descriptors.modify descriptor f } where
  sound := h.sound.modify _ _
  range := by
    intro other r hr
    rw [SharedTable.reference_modify] at hr
    exact h.range hr
  numbered := by
    intro r file hr
    rw [SharedTable.cells_modify] at hr
    split at hr
    · obtain ⟨file', hr', rfl⟩ := Option.map_eq_some_iff.mp hr
      rw [hid]
      exact h.numbered hr'
    · exact h.numbered hr
  next := by
    rw [SharedTable.next_modify]
    exact h.next
  accounts := by
    obtain ⟨given, haccounts, hgiven⟩ := h.accounts
    exact ⟨given, haccounts.modify _ hhost, hgiven⟩

theorem Inv.removed (h : Inv handed fs) (descriptor : GuestFileDescriptor) :
    Inv handed { fs with descriptors := fs.descriptors.remove descriptor } where
  sound := h.sound.remove _
  range := by
    intro other r hr
    rw [SharedTable.reference_remove] at hr
    split at hr
    · cases hr
    · exact h.range hr
  numbered hr := h.numbered (SharedTable.of_cells_remove hr).1
  next := by
    rw [SharedTable.next_remove]
    exact h.next
  accounts := by
    obtain ⟨given, haccounts, hgiven⟩ := h.accounts
    exact ⟨given, haccounts.remove h.sound _, hgiven⟩

/-! ## What one call does -/

/-- What a call that makes a descriptor does. -/
structure Made (fs : GuestFileSpace) (minimum : Int) (descriptor : GuestFileDescriptor)
    (fs' : GuestFileSpace) : Prop where
  free : fs.descriptors.reference descriptor = none
  above : max minimum 0 ≤ descriptor
  below : descriptor < maximumGuestDescriptors
  lowest : ∀ other, max minimum 0 ≤ other → other < descriptor →
    fs.descriptors.reference other ≠ none
  shown : (fs'.lookup descriptor).isSome
  others : ∀ other ≠ descriptor, fs'.lookup other = fs.lookup other

/-- What a call that throws does : the table is as before, and if it is exhausted there was no
room. -/
structure Refused (fs : GuestFileSpace) (minimum : Int) (message : String) (fs' : GuestFileSpace) :
    Prop where
  lookup : ∀ descriptor, fs'.lookup descriptor = fs.lookup descriptor
  exhausted : message = GuestFileSpace.exhausted → ∀ other, max minimum 0 ≤ other →
    other < maximumGuestDescriptors → fs.descriptors.reference other ≠ none

/-- What a call leaves : one description more at most, and no descriptor but `closing` is gone. -/
structure Keeps (closing : Option GuestFileDescriptor) (fs fs' : GuestFileSpace) : Prop where
  next : fs'.descriptors.next ≤ fs.descriptors.next + 1
  references : ∀ {descriptor r}, closing ≠ some descriptor →
    fs.descriptors.reference descriptor = some r → fs'.descriptors.reference descriptor = some r

theorem Keeps.refl (closing : Option GuestFileDescriptor) (fs : GuestFileSpace) :
    Keeps closing fs fs := ⟨Nat.le_succ _, fun _ hr => hr⟩

/-- What a call does after the host descriptors `handed`, `more` among its arguments. -/
def Does (handed more : List Nat) (minimum : Int) (closing : Option GuestFileDescriptor)
    (fs : GuestFileSpace)
    (call : Computation GuestFileSpace String (Option GuestFileDescriptor)) : Prop :=
  Post call fs
    (fun made fs' => Inv (handed ++ more) fs' ∧ Keeps closing fs fs' ∧
      ∀ descriptor, made = some descriptor → Made fs minimum descriptor fs')
    fun message fs' => Inv (handed ++ more) fs' ∧ Keeps closing fs fs' ∧
      Refused fs minimum message fs'

theorem Does.raise (h : Inv handed fs) {message : String} (hmessage : message ≠ exhausted) :
    Does handed [] minimum none fs (Computation.raise message) := by
  refine ⟨?_, .refl _ _, fun _ => rfl, fun heq => absurd heq hmessage⟩
  rwa [List.append_nil]

theorem install_spec (h : Inv handed fs) (file : GuestOpenFile) (hfile : file.descriptionId = 0)
    (closeOnExec : Bool) (minimum : Int) :
    Post (install file closeOnExec minimum) fs
      (fun descriptor fs' => Inv (handed ++ file.host.toList) fs' ∧ Keeps none fs fs' ∧
        Made fs minimum descriptor fs')
      fun message fs' => Inv (handed ++ file.host.toList) fs' ∧ Keeps none fs fs' ∧
        Refused fs minimum message fs' := by
  unfold install
  refine Post.bind (Post.get ?_)
  cases hlowest : fs.lowestFreeDescriptor minimum with
  | some descriptor =>
    obtain ⟨hfree, habove, hbelow, hothers⟩ := lowestFreeDescriptor_eq_some hlowest
    have hlow : 0 ≤ descriptor := le_trans (le_max_right _ _) habove
    have hinv := h.installed hfile hfree hlow hbelow closeOnExec
    refine Post.bind (Post.modify (Post.pure
      ⟨hinv, ?_, hfree, habove, hbelow, hothers, ?_, ?_⟩)) <;> rw [installed_eq hfile]
    · refine ⟨le_refl _, fun {other r} _ hr => ?_⟩
      rw [SharedTable.reference_add, if_neg, hr]
      rintro rfl
      rw [hfree] at hr
      cases hr
    · rw [lookup, h.sound.lookup_add, if_pos rfl]
      rfl
    · intro other hne
      rw [lookup, h.sound.lookup_add, if_neg hne]
      rfl
  | none =>
    refine Post.bind (Post.modify (Post.raise ⟨h.rejected file, ⟨Nat.le_succ _, fun _ hr => hr⟩,
      fun _ => rfl, fun _ => ?_⟩))
    exact lowestFreeDescriptor_eq_none hlowest

theorem install_does (h : Inv handed fs) (file : GuestOpenFile) (hfile : file.descriptionId = 0)
    (closeOnExec : Bool) (minimum : Int) : Does handed file.host.toList minimum none fs
      (do pure (some (← install file closeOnExec minimum))) := by
  refine Post.bind ((install_spec h file hfile closeOnExec minimum).mono ?_ fun _ _ h => h)
  rintro descriptor fs' ⟨hinv, hkeeps, hmade⟩
  exact ⟨hinv, hkeeps, fun made heq => Option.some.inj heq ▸ hmade⟩

theorem openHostFile_does (h : Inv handed fs) (canonicalPath : String) (flags : BitVec 32)
    (host : Option Nat) : Does handed host.toList 0 none fs
      (do pure (some (← openHostFile canonicalPath flags host))) := by
  unfold openHostFile
  cases host with
  | none => exact Does.raise h (by decide)
  | some host =>
    exact install_does h
      { kind := if canonicalPath = fs.currentDirectory then .currentDirectory else .hostReadOnlyFile
        guestPath := canonicalPath
        flags
        host := some host } rfl false 0

theorem duplicate_does (h : Inv handed fs) (descriptor : GuestFileDescriptor) (minimum : Int)
    (closeOnExec : Bool) :
    Does handed [] minimum none fs (duplicate descriptor minimum closeOnExec) := by
  have h' : Inv (handed ++ []) fs := by rwa [List.append_nil]
  unfold Does duplicate
  refine Post.bind (Post.get ?_)
  cases hr : fs.descriptors.reference descriptor with
  | none => exact Post.pure ⟨h', .refl _ _, fun made hmade => by cases hmade⟩
  | some r =>
    dsimp only
    cases hlowest : fs.lowestFreeDescriptor minimum with
    | some duplicateDescriptor =>
      obtain ⟨hfree, habove, hbelow, hothers⟩ := lowestFreeDescriptor_eq_some hlowest
      have hlow : 0 ≤ duplicateDescriptor := le_trans (le_max_right _ _) habove
      refine Post.bind (Post.modify (Post.pure
        ⟨h'.shared hfree hlow hbelow hr closeOnExec, ⟨Nat.le_succ _, ?_⟩, fun made hmade => ?_⟩))
      · intro other r' _ hr'
        rw [SharedTable.reference_share, if_neg, hr']
        rintro rfl
        rw [hfree] at hr'
        cases hr'
      obtain rfl := Option.some.inj hmade
      refine ⟨hfree, habove, hbelow, hothers, ?_, fun other hne => ?_⟩
      · obtain ⟨-, file, hcell⟩ := h.sound.cell hr
        rw [lookup, SharedTable.lookup_share, if_pos rfl, hcell]
        rfl
      · exact SharedTable.lookup_share.trans (if_neg hne)
    | none =>
      exact Post.raise ⟨h', .refl _ _, fun _ => rfl, fun _ => lowestFreeDescriptor_eq_none hlowest⟩

/-- Each call keeps the table in order, and makes the lowest free descriptor or none. -/
theorem FileCall.run_does (h : Inv handed fs) (call : FileCall) :
    Does handed call.handed call.minimum call.closing fs call.run := by
  have h' : Inv (handed ++ []) fs := by rwa [List.append_nil]
  cases call with
  | openCurrentDirectory flags host =>
    cases host with
    | none => exact Does.raise h (by decide)
    | some host => exact openHostFile_does h fs.currentDirectory flags (some host)
  | openRootDirectory flags =>
    exact install_does h { kind := .rootDirectory, guestPath := "/", flags } rfl false 0
  | openSyntheticDirectory guestPath flags =>
    show Does handed [] 0 none fs
      (do pure (some (← GuestFileSpace.openSyntheticDirectory guestPath flags)))
    unfold GuestFileSpace.openSyntheticDirectory
    split
    · exact install_does h { kind := .syntheticDirectory, guestPath, flags } rfl false 0
    · exact Does.raise h (by decide)
  | openHostFile canonicalPath flags host => exact openHostFile_does h canonicalPath flags host
  | openRandomDevice flags =>
    exact install_does h { kind := .randomDevice, guestPath := "/dev/urandom", flags } rfl false 0
  | openUnixDatagramSocket => exact install_does h { kind := .unixDatagramSocket } rfl false 0
  | duplicate descriptor minimum closeOnExec =>
    exact duplicate_does h descriptor minimum closeOnExec
  | setCloseOnExec descriptor enabled =>
    refine ⟨h'.marked descriptor enabled, ⟨?_, fun _ hr => ?_⟩, fun made hmade => by cases hmade⟩
    · exact le_of_eq_of_le SharedTable.next_setMark (Nat.le_succ _)
    · exact SharedTable.reference_setMark.trans hr
  | setDirectoryIndex descriptor directoryIndex =>
    refine ⟨h'.modified descriptor (fun _ => rfl) (fun _ => rfl), ⟨?_, fun _ hr => ?_⟩,
      fun made hmade => by cases hmade⟩
    · exact le_of_eq_of_le SharedTable.next_modify (Nat.le_succ _)
    · exact SharedTable.reference_modify.trans hr
  | close descriptor =>
    refine ⟨h'.removed descriptor, ⟨?_, fun {other r} hne hr => ?_⟩,
      fun made hmade => by cases hmade⟩
    · exact le_of_eq_of_le SharedTable.next_remove (Nat.le_succ _)
    · refine SharedTable.reference_remove.trans ((if_neg ?_).trans hr)
      rintro rfl
      exact hne rfl

/-! ## Whole runs -/

theorem after_spec (h : Inv handed fs) (call : FileCall) :
    Inv (handed ++ call.handed) (fs.after call) ∧ Keeps call.closing fs (fs.after call) := by
  refine Post.final (x := call.run)
    (P := fun fs' => Inv (handed ++ call.handed) fs' ∧ Keeps call.closing fs fs') ?_
  exact (FileCall.run_does h call).mono (fun _ _ h => ⟨h.1, h.2.1⟩) fun _ _ h => ⟨h.1, h.2.1⟩

theorem Inv.afterAll (h : Inv handed fs) (calls : List FileCall) :
    Inv (handed ++ calls.flatMap FileCall.handed) (fs.afterAll calls) ∧
      (fs.afterAll calls).descriptors.next ≤ fs.descriptors.next + calls.length := by
  induction calls generalizing fs handed with
  | nil => exact ⟨by rwa [List.flatMap_nil, List.append_nil], le_refl _⟩
  | cons call calls ih =>
    obtain ⟨hinv, hkeeps⟩ := after_spec h call
    obtain ⟨hrest, hnext⟩ := ih hinv
    refine ⟨?_, ?_⟩
    · rw [List.flatMap_cons, ← List.append_assoc]
      exact hrest
    · have hcall := hkeeps.next
      rw [List.length_cons]
      exact le_trans hnext (by omega)

/-- The host descriptors of the standard streams. -/
def streams (stdin stdout stderr : Option StandardStream) : List Nat :=
  [stdin, stdout, stderr].filterMap (·.map StandardStream.duplicate)

theorem inheritStandardStream_spec (h : Inv handed fs) (stream : Int)
    (given : Option StandardStream) :
    Post (inheritStandardStream stream given) fs
      (fun _ fs' => Inv (handed ++ (given.map StandardStream.duplicate).toList) fs' ∧
        fs'.descriptors.next ≤ fs.descriptors.next + 1)
      fun _ _ => True := by
  cases given with
  | none => exact ⟨(List.append_nil handed).symm ▸ h, Nat.le_succ _⟩
  | some given =>
    have hinstall := install_spec h { kind := .standardStream
                                      flags := given.statusFlags.getD 0
                                      host := some given.duplicate } rfl false stream
    refine Post.bind (hinstall.mono ?_ fun _ _ _ => trivial)
    exact fun descriptor fs' ⟨hinv, hkeeps, _⟩ => ⟨hinv, hkeeps.next⟩

theorem create_spec {currentDirectory : String} {stdin stdout stderr : Option StandardStream}
    (hcreate : create currentDirectory stdin stdout stderr = .ok fs) :
    Inv (streams stdin stdout stderr) fs ∧ fs.descriptors.next ≤ 3 := by
  have hpost : Post (inheritStandardStreams stdin stdout stderr) { currentDirectory }
      (fun _ fs' => Inv (streams stdin stdout stderr) fs' ∧ fs'.descriptors.next ≤ 3)
      fun _ _ => True := by
    refine Post.bind ((inheritStandardStream_spec (Inv.empty _) 0 stdin).mono ?_ fun _ _ h => h)
    rintro _ fs₁ ⟨h₁, hnext₁⟩
    refine Post.bind ((inheritStandardStream_spec h₁ 1 stdout).mono ?_ fun _ _ h => h)
    rintro _ fs₂ ⟨h₂, hnext₂⟩
    refine (inheritStandardStream_spec h₂ 2 stderr).mono ?_ fun _ _ h => h
    rintro _ fs₃ ⟨h₃, hnext₃⟩
    have hnext : fs₁.descriptors.next ≤ 0 + 1 := hnext₁
    refine ⟨?_, by omega⟩
    convert h₃ using 1
    cases stdin <;> cases stdout <;> cases stderr <;> rfl
  unfold create at hcreate
  split at hcreate
  · unfold Post at hpost
    split at hcreate
    · next hrun =>
      rw [hrun] at hpost
      cases hcreate
      exact hpost
    · cases hcreate
  · cases hcreate

theorem reachable_spec {currentDirectory : String} {stdin stdout stderr : Option StandardStream}
    (hcreate : create currentDirectory stdin stdout stderr = .ok fs) (calls : List FileCall) :
    Inv (streams stdin stdout stderr ++ calls.flatMap FileCall.handed) (fs.afterAll calls) ∧
      (fs.afterAll calls).descriptors.next ≤ 3 + calls.length := by
  obtain ⟨hinv, hnext⟩ := create_spec hcreate
  obtain ⟨hall, hmore⟩ := hinv.afterAll calls
  exact ⟨hall, le_trans hmore (Nat.add_le_add_right hnext _)⟩

/-- Whatever was called before, a call makes the lowest descriptor that is free from its minimum on
and changes no other; if it makes none because the table is exhausted, no descriptor was free; and
a call that throws leaves every descriptor. -/
theorem run_lowestFree {currentDirectory : String} {stdin stdout stderr : Option StandardStream}
    (hcreate : create currentDirectory stdin stdout stderr = .ok fs) (calls : List FileCall)
    (call : FileCall) :
    Post call.run (fs.afterAll calls)
      (fun made fs' => ∀ descriptor, made = some descriptor →
        Made (fs.afterAll calls) call.minimum descriptor fs')
      fun message fs' => Refused (fs.afterAll calls) call.minimum message fs' :=
  (FileCall.run_does (reachable_spec hcreate calls).1 call).mono (fun _ _ h => h.2.2)
    fun _ _ h => h.2.2

/-- A space in the root directory, with two of the standard streams. -/
def console : GuestFileSpace :=
  (inheritStandardStreams (some ⟨10, some 2⟩) none (some ⟨12, none⟩) { currentDirectory := "/" }).2

theorem console_created :
    create "/" (some ⟨10, some 2⟩) none (some ⟨12, none⟩) = .ok console :=
  if_pos (by decide)

/-- Two devices get the descriptors 1 and 3, and 0 is closed. -/
def twoDevices : GuestFileSpace :=
  console.afterAll [.openRandomDevice 0, .openRandomDevice 0, .close 0]

/-- A duplicate of 3 gets 0. -/
theorem run_lowestFree_twoDevices :
    (FileCall.run (.duplicate 3 0 false) twoDevices).1.toOption = some (some 0) ∧
      Post (FileCall.run (.duplicate 3 0 false)) twoDevices
        (fun made fs' => ∀ descriptor, made = some descriptor →
          Made twoDevices 0 descriptor fs')
        fun message fs' => Refused twoDevices 0 message fs' :=
  ⟨by decide, run_lowestFree console_created _ (.duplicate 3 0 false)⟩

/-! ## Ownership of host descriptors -/

theorem mem_owned (h : Inv handed fs) (host : Nat) :
    host ∈ fs.owned ↔
      ∃ descriptor file, fs.lookup descriptor = some file ∧ file.host = some host := by
  rw [owned, List.mem_filterMap]
  constructor
  · rintro ⟨file, hmem, hhost⟩
    obtain ⟨r, -, hcell⟩ := List.mem_filterMap.mp hmem
    obtain ⟨descriptor, hr⟩ := h.sound.used hcell
    exact ⟨descriptor, file, by rw [lookup, SharedTable.lookup, hr]; exact hcell, hhost⟩
  · rintro ⟨descriptor, file, hlookup, hhost⟩
    obtain ⟨r, hr, hcell⟩ := Option.bind_eq_some_iff.mp hlookup
    exact ⟨file, List.mem_filterMap.mpr ⟨r, List.mem_range.mpr (h.sound.cell hr).1, hcell⟩, hhost⟩

theorem closed_owned_perm (h : Inv handed fs) : (fs.closed ++ fs.owned).Perm handed := by
  obtain ⟨given, haccounts, rfl⟩ := h.accounts
  have hcount := haccounts.filterMap id
  rwa [List.filterMap_map, List.filterMap_append] at hcount

/-- Whatever was called, the host descriptors that were handed to the space, with the standard
streams and by the calls that returned or threw, are closed or owned by a description that some
descriptor refers to, each once. -/
theorem hostDescriptors_accounted {currentDirectory : String}
    {stdin stdout stderr : Option StandardStream}
    (hcreate : create currentDirectory stdin stdout stderr = .ok fs) (calls : List FileCall) :
    ((fs.afterAll calls).closed ++ (fs.afterAll calls).owned).Perm
        (streams stdin stdout stderr ++ calls.flatMap FileCall.handed) ∧
      ∀ host, host ∈ (fs.afterAll calls).owned ↔ ∃ descriptor file,
        (fs.afterAll calls).lookup descriptor = some file ∧ file.host = some host :=
  ⟨closed_owned_perm (reachable_spec hcreate calls).1, mem_owned (reachable_spec hcreate calls).1⟩

/-- A file is opened and shared, and one of its descriptors closed; then a stream is closed. -/
def sharedThenClosed : List FileCall :=
  [.openHostFile "/a" 0 (some 20), .duplicate 1 0 false, .close 1, .close 0]

theorem hostDescriptors_accounted_console :
    (console.afterAll sharedThenClosed).closed = [10] ∧
      ((console.afterAll sharedThenClosed).closed ++
        (console.afterAll sharedThenClosed).owned).Perm [10, 12, 20] :=
  ⟨by decide, (hostDescriptors_accounted console_created sharedThenClosed).1⟩

/-! ## Shared descriptions -/

/-- Below 2^64 descriptions the number tells them apart. -/
theorem descriptionId_inj (h : Inv handed fs) (hnext : fs.descriptors.next < 2 ^ 64)
    (descriptor other : GuestFileDescriptor) :
    (fs.lookup descriptor).map GuestOpenFile.descriptionId =
        (fs.lookup other).map GuestOpenFile.descriptionId ↔
      fs.descriptors.reference descriptor = fs.descriptors.reference other := by
  have hid (descriptor : GuestFileDescriptor) :
      (fs.lookup descriptor).map GuestOpenFile.descriptionId =
        (fs.descriptors.reference descriptor).map fun r => BitVec.ofNat 64 (r + 1) := by
    unfold lookup SharedTable.lookup
    cases hr : fs.descriptors.reference descriptor with
    | none => rfl
    | some r =>
      obtain ⟨-, file, hcell⟩ := h.sound.cell hr
      simp only [Option.bind_some, hcell, Option.map_some, h.numbered hcell]
  rw [hid, hid]
  constructor
  · intro heq
    cases hr : fs.descriptors.reference descriptor with
    | none =>
      rw [hr, Option.map_none, eq_comm, Option.map_eq_none_iff] at heq
      rw [heq]
    | some r =>
      rw [hr, Option.map_some, eq_comm] at heq
      obtain ⟨r', hr', hnumber⟩ := Option.map_eq_some_iff.mp heq
      have hlt := (h.sound.cell hr).1
      have hlt' := (h.sound.cell hr').1
      have hmod := congrArg BitVec.toNat hnumber
      rw [BitVec.toNat_ofNat, BitVec.toNat_ofNat, Nat.mod_eq_of_lt (by omega),
        Nat.mod_eq_of_lt (by omega)] at hmod
      rw [hr', Nat.succ.inj hmod]
  · intro heq
    rw [heq]

/-- In a space that made less than 2^64 descriptions, moving the position of a directory through one
descriptor moves it for the descriptors that show the same description number and for no other. -/
theorem setDirectoryIndex_shared {currentDirectory : String}
    {stdin stdout stderr : Option StandardStream}
    (hcreate : create currentDirectory stdin stdout stderr = .ok fs) (calls : List FileCall)
    (hcalls : calls.length < 2 ^ 64 - 3) (descriptor other : GuestFileDescriptor)
    (directoryIndex : BitVec 64) :
    ((fs.afterAll calls).after (.setDirectoryIndex descriptor directoryIndex)).lookup other =
      if ((fs.afterAll calls).lookup other).map GuestOpenFile.descriptionId =
          ((fs.afterAll calls).lookup descriptor).map GuestOpenFile.descriptionId then
        ((fs.afterAll calls).lookup other).map fun file => { file with directoryIndex }
      else (fs.afterAll calls).lookup other := by
  obtain ⟨hinv, hnext⟩ := reachable_spec hcreate calls
  have hinj := descriptionId_inj hinv (by omega) other descriptor
  simp only [hinj]
  exact SharedTable.lookup_modify

/-- A file opened twice, the first time with a duplicate. -/
def openedTwice : GuestFileSpace :=
  console.afterAll [.openHostFile "/a" 0 (some 20), .duplicate 1 0 false,
    .openHostFile "/a" 0 (some 21)]

/-- The position moves for the duplicate, and not for the second opening. -/
theorem setDirectoryIndex_shared_openedTwice :
    (openedTwice.after (.setDirectoryIndex 1 7)).lookup 3 =
        (openedTwice.lookup 3).map (fun file => { file with directoryIndex := 7 }) ∧
      (openedTwice.after (.setDirectoryIndex 1 7)).lookup 4 = openedTwice.lookup 4 := by
  have hshared := setDirectoryIndex_shared console_created [.openHostFile "/a" 0 (some 20),
    .duplicate 1 0 false, .openHostFile "/a" 0 (some 21)] (by decide) 1
  exact ⟨(hshared 3 7).trans (if_pos (by decide)), (hshared 4 7).trans (if_neg (by decide))⟩

theorem Inv.keeps_reference (h : Inv handed fs) {calls : List FileCall} {r : Nat}
    (hopen : ∀ call ∈ calls, call.closing ≠ some descriptor)
    (hr : fs.descriptors.reference descriptor = some r) :
    (fs.afterAll calls).descriptors.reference descriptor = some r := by
  induction calls generalizing fs handed with
  | nil => exact hr
  | cons call calls ih =>
    obtain ⟨hinv, hkeeps⟩ := after_spec h call
    exact ih hinv (fun call hmem => hopen call (List.mem_cons_of_mem _ hmem))
      (hkeeps.references (hopen call List.mem_cons_self) hr)

theorem duplicate_reference (h : Inv handed fs) {closeOnExec : Bool}
    (hrun : duplicate descriptor minimum closeOnExec fs = (.ok (some other), fs')) :
    Inv handed fs' ∧ ∃ r, fs'.descriptors.reference descriptor = some r ∧
      fs'.descriptors.reference other = some r := by
  have hdoes := duplicate_does h descriptor minimum closeOnExec
  unfold Does Post at hdoes
  rw [hrun] at hdoes
  obtain ⟨hinv, hkeeps, -⟩ := hdoes
  rw [List.append_nil] at hinv
  unfold duplicate at hrun
  rw [bind_ok (x := Computation.get) (s := fs) rfl] at hrun
  cases hr : fs.descriptors.reference descriptor with
  | none =>
    simp only [hr] at hrun
    cases hrun
  | some r =>
    refine ⟨hinv, r, hkeeps.references (by simp) hr, ?_⟩
    simp only [hr] at hrun
    cases hlowest : fs.lowestFreeDescriptor minimum with
    | none =>
      rw [hlowest] at hrun
      cases hrun
    | some duplicateDescriptor =>
      rw [hlowest] at hrun
      cases hrun
      exact SharedTable.reference_share.trans (if_pos rfl)

/-- A duplicate shows what its source shows until one of the two is closed, whatever else is
called. -/
theorem duplicate_follows {currentDirectory : String} {stdin stdout stderr : Option StandardStream}
    (hcreate : create currentDirectory stdin stdout stderr = .ok fs) (calls later : List FileCall)
    {closeOnExec : Bool}
    (hrun : duplicate descriptor minimum closeOnExec (fs.afterAll calls) = (.ok (some other), fs'))
    (hopen : ∀ call ∈ later, call.closing ≠ some descriptor ∧ call.closing ≠ some other) :
    (fs'.afterAll later).lookup other = (fs'.afterAll later).lookup descriptor ∧
      ((fs'.afterAll later).lookup other).isSome := by
  obtain ⟨hinv, r, hsource, hduplicate⟩ := duplicate_reference (reachable_spec hcreate calls).1 hrun
  have hsource' := hinv.keeps_reference (fun call hmem => (hopen call hmem).1) hsource
  have hduplicate' := hinv.keeps_reference (fun call hmem => (hopen call hmem).2) hduplicate
  refine ⟨?_, ?_⟩
  · rw [lookup, lookup, SharedTable.lookup, SharedTable.lookup, hsource', hduplicate']
  · rw [lookup, (hinv.afterAll later).1.sound.lookup_isSome, hduplicate']
    rfl

/-- The duplicate of a stream, when the stream's position was moved through the stream. -/
theorem duplicate_follows_console :
    ((duplicate 0 5 true console).2.afterAll [.setDirectoryIndex 0 7, .close 2]).lookup 5 =
      ((duplicate 0 5 true console).2.afterAll [.setDirectoryIndex 0 7, .close 2]).lookup 0 :=
  have hrun : duplicate 0 5 true (console.afterAll []) =
      (.ok (some 5), (duplicate 0 5 true console).2) := rfl
  (duplicate_follows console_created [] [.setDirectoryIndex 0 7, .close 2] hrun (by decide)).1

end GuestFileSpace

end Rosa.Darwin
