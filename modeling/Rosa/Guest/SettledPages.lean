import Rosa.Guest.ExecutableVersion

/-!
# Accesses that meet no throwing page

A callback that throws may already have changed its page, and then the access that used the
page has changed memory although it failed. `settled` is the space with callbacks that give
the page back as it was. An access that meets no page whose callback throws does the same in
both spaces (`Settles`), so what is known of accesses under such callbacks holds of it : a read,
and a write that throws, leave everything as the guest sees it (`SameMemory`).
-/

namespace Rosa

/-- The callback, with the page as it was if it throws. -/
def cleanedTransform (transform : PageTransform) : PageTransform := fun size bytes page =>
  let result := transform size bytes page
  (if result.2.isSome then bytes else result.1, result.2)

/-- The transform with its callback cleaned. -/
def LazyFilePageTransform.cleaned (t : LazyFilePageTransform) : LazyFilePageTransform :=
  { t with transform := cleanedTransform t.transform }

namespace Computation

variable {σ ε α : Type} {x : Computation σ ε α} {s s' : σ} {Q : α → σ → Prop} {F : ε → σ → Prop}

theorem Post.of_ok {a : α} (h : Post x s Q F) (hx : x s = (.ok a, s')) : Q a s' := by
  unfold Post at h
  rw [hx] at h
  exact h

theorem Post.with_run (h : Post x s Q F) :
    Post x s (fun a s' => Q a s' ∧ x s = (.ok a, s')) F := by
  unfold Post at h ⊢
  split at h
  · next hx => exact ⟨h, hx⟩
  · exact h

theorem Post.of_final {P : σ → Prop} (h : P (x s).2) :
    Post x s (fun _ s' => P s') fun _ s' => P s' := by
  unfold Post
  split
  · next hx =>
    rw [hx] at h
    exact h
  · next hx =>
    rw [hx] at h
    exact h

theorem Post.of_error {e : ε} (h : Post x s Q F) (hx : x s = (.error e, s')) : F e s' := by
  unfold Post at h
  rw [hx] at h
  exact h

end Computation

namespace AddressSpace

open Rosa.Computation

/-- The space with cleaned callbacks. -/
def settled (s : AddressSpace) : AddressSpace :=
  { s with transforms := fun t => (s.transforms t).cleaned }

/-- The mappings are the same and show the same bytes; a page whose callback throws shows the
bytes of the file. -/
structure SameMemory (s s' : AddressSpace) : Prop where
  mappings : s'.mappings = s.mappings
  bytes : ∀ m ∈ s.mappings, SameBytes s.settled s'.settled m

/-- No byte of the range is on a page whose callback throws. -/
def NoneFails (s : AddressSpace) (address size : Nat) : Prop :=
  ∀ m ∈ s.mappings, ∀ o < m.size, address ≤ m.base + o → m.base + o < address + size →
    s.pageFails m o = false

/-- What is needed of a space : the representation invariant, backing for what may be accessed,
and callbacks that work on their page. -/
structure Regular (s : AddressSpace) : Prop where
  inv : Inv s
  backed : Backed s
  lazyInv : LazyInv s.settled

/-- What every space is, also one with a reservation that was made accessible. -/
structure Orderly (s : AddressSpace) : Prop where
  inv : Inv s
  lazyInv : LazyInv s.settled

variable {s s' s'' : AddressSpace} {m : Mapping} {α β : Type}

theorem Regular.orderly (hr : Regular s) : Orderly s := ⟨hr.inv, hr.lazyInv⟩

instance : Coe (Regular s) (Orderly s) := ⟨Regular.orderly⟩

theorem pageFails_settled (s : AddressSpace) (m : Mapping) (o : Nat) :
    s.settled.pageFails m o = s.pageFails m o := by
  unfold pageFails
  split <;> rfl

theorem Inv.settled (h : Inv s) : Inv s.settled where
  placed := h.placed
  sorted := h.sorted
  shaped m hm := by
    obtain ⟨h1, h2, h3, h4⟩ := h.shaped m hm
    exact ⟨h1, h2, h3, h4⟩
  shift := h.shift
  lookup := h.lookup

theorem transformPage_cleaned {t : LazyFilePageTransform} {data : Nat → Byte} {page : Nat}
    (h : (transformPage t data page).2 = none) :
    transformPage t.cleaned data page = transformPage t data page := by
  have h' : (t.transform t.size (fun i => data (t.dataOffset + i)) page).2 = none := h
  simp only [transformPage, LazyFilePageTransform.cleaned, cleanedTransform, h',
    Option.isSome_none, Bool.false_eq_true, if_false]
  rfl

/-- A callback that returns is not changed. -/
theorem applyTransform_settled {f : FileId} {t : TransformId} {page : Nat}
    (h : (transformPage (s.transforms t) (s.files f).data page).2 = none) :
    applyTransform f t page s.settled = (applyTransform f t page s).settled := by
  have hpage := transformPage_cleaned h
  simp only [applyTransform, settled, hpage, h, Option.isSome_none, Bool.false_eq_true, if_false]
  congr 1
  funext u
  by_cases hu : u = t
  · subst hu
    simp [LazyFilePageTransform.cleaned]
  · simp [Function.update_of_ne hu]

/-! ## The two spaces in step -/

/-- The computation does the same in the settled space. -/
def Settles (x : Access α) (s : AddressSpace) : Prop :=
  x s.settled = ((x s).1, (x s).2.settled)

theorem Settles.pure (a : α) : Settles (Pure.pure a) s := rfl

theorem Settles.raise (e : AccessError) : Settles (raise e : Access α) s := rfl

theorem Settles.raiseIf (condition : Bool) (e : AccessError) :
    Settles (raiseIf condition e : Access Unit) s := by
  cases condition with
  | false => exact .pure ()
  | true => exact .raise e

theorem Settles.modify {f : AddressSpace → AddressSpace} (h : f s.settled = (f s).settled) :
    Settles (modify f) s := by
  simp only [Settles, Computation.modify, h]

theorem Settles.bind {x : Access β} {f : β → Access α} (hx : Settles x s)
    (hf : ∀ b s', x s = (.ok b, s') → Settles (f b) s') : Settles (x >>= f) s := by
  unfold Settles at hx ⊢
  rcases h : x s with ⟨r, s'⟩
  rw [h] at hx
  cases r with
  | ok b =>
    rw [bind_ok h, bind_ok hx]
    exact hf b s' h
  | error e => rw [bind_error h, bind_error hx]

theorem Settles.raiseIf_bind {condition : Bool} {e : AccessError} {f : Unit → Access α}
    (h : Settles (f ()) s) : Settles (Computation.raiseIf condition e >>= f) s := by
  cases condition with
  | false => exact h
  | true => exact .raise e

theorem Settles.get_bind {f : AddressSpace → Access α} (hf : f s.settled = f s)
    (h : Settles (f s) s) : Settles (get >>= f) s := by
  have hrun : (get >>= f) s.settled = f s.settled s.settled := rfl
  rw [Settles, hrun, hf]
  exact h

theorem bumpIf_settles (condition : Bool) : Settles (bumpIf condition) s :=
  .modify (by cases condition <;> rfl)

theorem find_settles (address size : Nat) (required : Permission) :
    Settles (find address size required) s := by
  unfold find
  refine .get_bind rfl ?_
  cases s.cachedMapping address size with
  | some found => exact .raiseIf_bind (.pure _)
  | none =>
    cases mappingHolding s.mappings address size with
    | none => exact .raise _
    | some found =>
      exact .raiseIf_bind (.bind (.modify rfl) fun _ _ _ => .pure _)

/-- A read in both spaces. -/
structure Calm (s s' : AddressSpace) : Prop where
  touches : Touches nowhere s s'
  settled : Touches nowhere s.settled s'.settled

theorem Calm.refl (s : AddressSpace) : Calm s s := ⟨.refl, .refl⟩

theorem Calm.trans (h : Calm s s') (h' : Calm s' s'') : Calm s s'' :=
  ⟨h.touches.trans h'.touches, h.settled.trans h'.settled⟩

/-- A reading access that does the same in both spaces. -/
theorem Settles.calm {x : Access α} {R R' : α → AddressSpace → Prop} (h : Settles x s)
    (hx : ReadSpec s x R) (hx' : ReadSpec s.settled x R') : Calm s (x s).2 := by
  refine ⟨Post.final (Post.mono hx (fun _ _ h => h.1) fun _ _ h => h.1), ?_⟩
  have : Touches nowhere s.settled (x s.settled).2 :=
    Post.final (Post.mono hx' (fun _ _ h => h.1) fun _ _ h => h.1)
  rw [h] at this
  exact this

theorem Touch.sameBytes (hi : Inv s) (hl : LazyInv s) (h : Touch nowhere s s')
    (hm : m ∈ s.mappings) : SameBytes s s' m := by
  cases h with
  | lookup => exact .of_eq (fun _ _ => rfl) fun _ _ => rfl
  | transform hm0 hf ht ho hnew => exact sameBytes_applyTransform hi hl hm hm0 hf ht hnew
  | store _ ha => exact ha.elim

theorem Touches.sameBytes (hi : Inv s) (hl : LazyInv s) (h : Touches nowhere s s')
    (hm : m ∈ s.mappings) : SameBytes s s' m := by
  induction h with
  | refl => exact .refl s m
  | tail hs ht ih =>
    have hs : Touches nowhere s _ := hs
    exact ih.trans (ht.sameBytes (hs.inv hi) (hl.of_sameShape hs.sameShape) (hs.mappings_eq ▸ hm))

theorem Calm.regular (h : Calm s s') (hr : Regular s) : Regular s' :=
  ⟨h.touches.inv hr.inv, h.touches.backed hr.backed, hr.lazyInv.of_sameShape h.settled.sameShape⟩

theorem Calm.orderly (h : Calm s s') (hr : Orderly s) : Orderly s' :=
  ⟨h.touches.inv hr.inv, hr.lazyInv.of_sameShape h.settled.sameShape⟩

theorem SameMemory.refl (s : AddressSpace) : SameMemory s s :=
  ⟨rfl, fun m _ => .refl s.settled m⟩

theorem SameMemory.trans (h : SameMemory s s') (h' : SameMemory s' s'') : SameMemory s s'' :=
  ⟨h'.mappings.trans h.mappings,
    fun m hm => (h.bytes m hm).trans (h'.bytes m (by rw [h.mappings]; exact hm))⟩

theorem Calm.sameMemory (h : Calm s s') (hr : Orderly s) : SameMemory s s' :=
  ⟨h.touches.mappings_eq, fun _ hm => h.settled.sameBytes hr.inv.settled hr.lazyInv hm⟩

theorem SameMemory.noneFails (h : SameMemory s s') {address size : Nat}
    (hno : NoneFails s address size) : NoneFails s' address size := by
  intro m hm o ho h1 h2
  rw [h.mappings] at hm
  have := (h.bytes m hm o ho).1
  rw [pageFails_settled, pageFails_settled] at this
  rw [this]
  exact hno m hm o ho h1 h2

theorem Calm.noneFails (h : Calm s s') (hr : Orderly s) {address size : Nat}
    (hno : NoneFails s address size) : NoneFails s' address size :=
  (h.sameMemory hr).noneFails hno

/-- The pages of a mapping that do not throw. -/
theorem materializePages_settles {file : FileId} {t : TransformId}
    (hfile : m.fileBytes = some file) (ht : m.lazyFileTransform = some t) :
    ∀ (count page : Nat) {s : AddressSpace}, Orderly s → m ∈ s.mappings →
      (∀ p, page ≤ p → p < page + count → ∃ o < m.size, (s.transforms t).pageOf m o = p ∧
        s.pageFails m o = false) →
      Settles (materializePages file t count page) s
  | 0, _, _, _, _, _ => .pure ()
  | count + 1, page, s, hr, hm, hpages => by
    have hrest {s' : AddressSpace} (hs : Calm s s') :
        Settles (materializePages file t count (page + 1)) s' := by
      refine materializePages_settles hfile ht count (page + 1) (hs.orderly hr)
        (hs.touches.mappings_eq ▸ hm) ?_
      intro p h1 h2
      obtain ⟨o, ho, hpo, hno⟩ := hpages p (by omega) (by omega)
      obtain ⟨e1, -, e3, -⟩ := hs.touches.sameShape.transforms t
      refine ⟨o, ho, by rw [LazyFilePageTransform.pageOf, e1, e3]; exact hpo, ?_⟩
      have := ((hs.sameMemory hr).bytes m hm o ho).1
      rw [pageFails_settled, pageFails_settled] at this
      rw [this, hno]
    obtain ⟨o, ho, rfl, hno⟩ := hpages page (le_refl _) (by omega)
    rw [materializePages]
    refine .get_bind rfl ?_
    dsimp only
    split
    · exact hrest (.refl s)
    · next hnew =>
      have hnew' := Bool.eq_false_iff.mpr hnew
      have hok : (transformPage (s.transforms t) (s.files file).data
          ((s.transforms t).pageOf m o)).2 = none := by
        rw [pageOf_eq_filePage] at hnew' ⊢
        simpa [pageFails, hfile, ht, fails, hnew'] using hno
      have hsettled := applyTransform_settled hok
      refine .raiseIf_bind (.bind (.modify hsettled) fun _ s2 h2 => ?_)
      obtain rfl : applyTransform file t ((s.transforms t).pageOf m o) s = s2 :=
        congrArg Prod.snd h2
      rw [hok]
      refine hrest ⟨.single (.transform hm hfile ht ho hnew'), ?_⟩
      have htouch : Touch nowhere s.settled (applyTransform file t
          ((s.settled.transforms t).pageOf m o) s.settled) := .transform hm hfile ht ho hnew'
      rw [show (s.settled.transforms t).pageOf m o = (s.transforms t).pageOf m o from rfl,
        hsettled] at htouch
      exact .single htouch

theorem materializeFileBytes_settles (hr : Orderly s) (hm : m ∈ s.mappings) {offset size : Nat}
    (hfits : offset + size ≤ m.size)
    (hno : ∀ k < size, s.pageFails m (offset + k) = false) :
    Settles (materializeFileBytes m offset size) s := by
  unfold materializeFileBytes
  split
  · next file t hfile ht =>
    obtain ⟨-, hps, hlow, hhigh, -⟩ := (hr.inv.shaped m hm).lazyTransform t ht
    unfold materialize
    refine .get_bind rfl ?_
    dsimp only
    split
    · exact .pure ()
    · refine .raiseIf_bind (materializePages_settles hfile ht _ _ hr hm fun p h1 h2 => ?_)
      obtain ⟨o, ho1, ho2, hp⟩ := exists_offset_on_page hps hlow (by omega) h1 h2
      refine ⟨o, by omega, hp, ?_⟩
      have := hno (o - offset) (by omega)
      rwa [show offset + (o - offset) = o by omega] at this
  · exact .pure ()

/-! ## Reads -/

theorem loadChunk_settles (hr : Orderly s) (hm : m ∈ s.mappings) {offset size : Nat}
    (hfits : offset + size ≤ m.size)
    (hno : ∀ k < size, s.pageFails m (offset + k) = false) :
    Settles (loadChunk m offset size) s := by
  unfold loadChunk
  split
  · refine .bind (materializeFileBytes_settles hr hm hfits hno) fun _ s' _ => ?_
    exact .get_bind rfl (.raiseIf_bind (.pure _))
  · exact .raiseIf_bind (.pure _)

theorem checkReadable_settles (m : Mapping) (offset size : Nat) :
    Settles (checkReadable m offset size) s := by
  unfold checkReadable
  split
  · exact .pure ()
  · exact .raiseIf_bind (.raiseIf _ _)

/-- The chunk of a range that lies in one mapping. -/
theorem NoneFails.chunk {cursor remaining : Nat} (hno : NoneFails s cursor remaining)
    (hm : m ∈ s.mappings) (hbase : m.base ≤ cursor) {chunk : Nat} (hchunk : chunk ≤ remaining)
    (hfits : cursor - m.base + chunk ≤ m.size) (k : Nat) (hk : k < chunk) :
    s.pageFails m (cursor - m.base + k) = false :=
  hno m hm _ (by omega) (by omega) (by omega)

theorem NoneFails.drop {cursor remaining : Nat} (hno : NoneFails s cursor remaining)
    (chunk : Nat) (hchunk : chunk ≤ remaining) :
    NoneFails s (cursor + chunk) (remaining - chunk) :=
  fun m hm o ho h1 h2 => hno m hm o ho (by omega) (by omega)

theorem find_calm (hi : Inv s) (address : Nat) (required : Permission) :
    Calm s (find address 1 required s).2 :=
  (find_settles address 1 required).calm (find_spec hi Nat.one_pos _)
    (find_spec hi.settled Nat.one_pos _)

/-- What a lookup that returns has found, and the space after it. -/
theorem found_of_find (hi : Inv s) {address : Nat} {required : Permission} {found : Nat × Mapping}
    (h : find address 1 required s = (.ok found, s')) :
    Calm s s' ∧ Found s address 1 required found.1 found.2 := by
  refine ⟨?_, (Post.of_ok (find_spec hi Nat.one_pos _) h).2⟩
  have := find_calm hi address required
  rwa [h] at this

theorem readFrom_settles : ∀ (fuel cursor remaining : Nat) {s : AddressSpace}, Orderly s →
    NoneFails s cursor remaining → Settles (readFrom fuel cursor remaining) s
  | 0, _, _, _, _, _ => .pure []
  | fuel + 1, cursor, remaining, s, hr, hno => by
    rw [readFrom]
    split
    · exact .pure []
    · refine .bind (find_settles _ _ _) fun found s1 h1 => ?_
      obtain ⟨hcalm1, hf⟩ := found_of_find hr.inv h1
      obtain ⟨i, m⟩ := found
      dsimp only at hf ⊢
      generalize hchunk : min remaining (m.size - (cursor - m.base)) = chunk
      obtain ⟨hbase, hfits, hle, hpos, hnext⟩ := hf.chunk hr.inv hchunk
      refine .bind (checkReadable_settles _ _ _) fun _ s2 h2 => ?_
      have hm1 : m ∈ s1.mappings := hcalm1.touches.mappings_eq ▸ hf.mem
      have hr1 := hcalm1.orderly hr
      have hcalm2 : Calm s1 s2 := by
        have := (checkReadable_settles m _ _).calm (checkReadable_spec hr1.inv hm1 hfits)
          (checkReadable_spec hr1.inv.settled hm1 hfits)
        rwa [h2] at this
      have hm2 : m ∈ s2.mappings := hcalm2.touches.mappings_eq ▸ hm1
      have hr2 := hcalm2.orderly hr1
      have hno2 := hcalm2.noneFails hr1 (hcalm1.noneFails hr hno)
      have hload := loadChunk_settles hr2 hm2 hfits (hno2.chunk hm2 hbase (by omega) hfits)
      refine .bind hload fun _ s3 h3 => ?_
      have hacc := hf.accessible (by decide)
      have hcalm3 : Calm s2 s3 := by
        have := hload.calm (loadChunk_spec hr2.inv hm2 hacc hfits)
          (loadChunk_spec hr2.inv.settled hm2 hacc hfits)
        rwa [h3] at this
      rw [Nat.mod_eq_of_lt hnext]
      refine .bind (readFrom_settles fuel _ _ (hcalm3.orderly hr2) ?_) fun _ _ _ => .pure _
      exact (hcalm3.noneFails hr2 hno2).drop chunk (by omega)

/-- A read that meets no throwing page changes nothing that is seen. -/
theorem readInto_calm (hr : Orderly s) {address size : Nat} (hno : NoneFails s address size) :
    Calm s (readInto address size s).2 :=
  (readFrom_settles size address size hr hno).calm (readFrom_spec _ _ _ hr.inv)
    (readFrom_spec _ _ _ hr.inv.settled)

theorem readWord_settles (hr : Orderly s) {address size : Nat} (hno : NoneFails s address size) :
    Settles (readWord address size) s := by
  unfold readWord
  refine .bind (find_settles _ _ _) fun found s1 h1 => ?_
  obtain ⟨hcalm, hf⟩ := found_of_find hr.inv h1
  obtain ⟨i, m⟩ := found
  have hbase : m.base ≤ address := hf.base
  have hlimit : address + 1 ≤ m.base + m.size := hf.limit
  have hr1 := hcalm.orderly hr
  have hno1 := hcalm.noneFails hr hno
  have hm1 : m ∈ s1.mappings := hcalm.touches.mappings_eq ▸ hf.mem
  dsimp only
  split
  · next h =>
    have hfits : address - m.base + size ≤ m.size := by omega
    exact loadChunk_settles hr1 hm1 hfits (hno1.chunk hm1 hbase le_rfl hfits)
  · exact readFrom_settles size address size hr1 hno1

theorem readWord_calm (hr : Orderly s) {address size : Nat} (hno : NoneFails s address size) :
    Calm s (readWord address size s).2 :=
  (readWord_settles hr hno).calm (readWord_spec hr.inv _ _) (readWord_spec hr.inv.settled _ _)

theorem validateFrom_settles (required : Permission) :
    ∀ (fuel cursor remaining : Nat) {s : AddressSpace},
      Settles (validateFrom required fuel cursor remaining) s
  | 0, _, _, _ => .pure ()
  | fuel + 1, cursor, remaining, s => by
    rw [validateFrom]
    split
    · exact .pure ()
    · exact .bind (find_settles _ _ _) fun _ _ _ => validateFrom_settles required fuel _ _

/-- A check of permissions reads no bytes. -/
theorem validateAccess_calm (hi : Inv s) (address size : Nat) (required : Permission) :
    Calm s (validateAccess address size required s).2 :=
  (validateFrom_settles required size address size).calm (validateFrom_spec required _ _ _ hi)
    (validateFrom_spec required _ _ _ hi.settled)

/-! ## Writes -/

theorem storeBytes_settled {i offset : Nat} {data : List Byte} :
    storeBytes i m offset data s.settled = (storeBytes i m offset data s).settled := by
  unfold storeBytes
  split <;> rfl

theorem storeChunk_settles (i : Nat) (m : Mapping) (offset : Nat) (data : List Byte) :
    Settles (storeChunk i m offset data) s := by
  unfold storeChunk
  refine .get_bind rfl ?_
  dsimp only
  split
  · exact .raiseIf_bind (.modify storeBytes_settled)
  · exact .raiseIf_bind (.modify storeBytes_settled)

theorem copyBytes_settles : ∀ (fuel cursor : Nat) (data : List Byte) {s : AddressSpace},
    Settles (copyBytes fuel cursor data) s
  | 0, _, _, _ => .pure ()
  | fuel + 1, cursor, data, s => by
    rw [copyBytes]
    split
    · exact .pure ()
    · refine .bind (find_settles _ _ _) fun _ _ _ => ?_
      exact .bind (storeChunk_settles _ _ _ _) fun _ _ _ => copyBytes_settles fuel _ _

/-- The pages of a chunk that do not throw are made ready. -/
theorem materializeFileBytes_returns (hr : Orderly s) (hm : m ∈ s.mappings) {offset size : Nat}
    (hfits : offset + size ≤ m.size)
    (hno : ∀ k < size, s.pageFails m (offset + k) = false) :
    Post (materializeFileBytes m offset size) s (fun _ s' => Calm s s') fun _ _ => False := by
  have hsettles := materializeFileBytes_settles hr hm hfits hno
  have hcalm := hsettles.calm (materializeFileBytes_spec hr.inv hm hfits)
    (materializeFileBytes_spec hr.inv.settled hm hfits)
  unfold Post
  rcases h : materializeFileBytes m offset size s with ⟨_ | _, s'⟩
  · rw [Settles, h] at hsettles
    obtain ⟨o, h1, h2, hfail⟩ :=
      Post.of_error (materializeFileBytes_throws hr.inv.settled hr.lazyInv hm hfits) hsettles
    have := hno (o - offset) (by omega)
    rw [show offset + (o - offset) = o by omega, ← pageFails_settled, hfail] at this
    cases this
  · rw [h] at hcalm
    exact hcalm

theorem validateWrite_settles : ∀ (fuel cursor remaining : Nat) {s : AddressSpace}, Regular s →
    NoneFails s cursor remaining → Settles (validateWrite fuel cursor remaining) s
  | 0, _, _, _, _, _ => .pure false
  | fuel + 1, cursor, remaining, s, hr, hno => by
    rw [validateWrite]
    split
    · exact .pure false
    · refine .bind (find_settles _ _ _) fun found s1 h1 => ?_
      obtain ⟨hcalm, hf⟩ := found_of_find hr.inv h1
      obtain ⟨i, m⟩ := found
      dsimp only at hf ⊢
      generalize hchunk : min remaining (m.size - (cursor - m.base)) = chunk
      obtain ⟨hbase, hfits, hle, hpos, hnext⟩ := hf.chunk hr.inv hchunk
      have hr1 := hcalm.regular hr
      have hno1 := hcalm.noneFails hr hno
      have hm1 : m ∈ s1.mappings := hcalm.touches.mappings_eq ▸ hf.mem
      have hpages := hno1.chunk hm1 hbase (show chunk ≤ remaining by omega) hfits
      refine .bind (materializeFileBytes_settles hr1 hm1 hfits hpages) fun _ s2 h2 => ?_
      have hcalm2 := Post.of_ok (materializeFileBytes_returns hr1 hm1 hfits hpages) h2
      rw [Nat.mod_eq_of_lt hnext]
      refine .bind (validateWrite_settles fuel _ _ (hcalm2.regular hr1) ?_) fun _ _ _ => .pure _
      exact (hcalm2.noneFails hr1 hno1).drop chunk (by omega)

theorem writeBytes_settles (hr : Regular s) {address : Nat} {data : List Byte}
    (hno : NoneFails s address data.length) : Settles (writeBytes address data) s := by
  unfold writeBytes
  split
  · exact .pure ()
  · refine .bind (find_settles _ _ _) fun found s1 h1 => ?_
    obtain ⟨hcalm, hf⟩ := found_of_find hr.inv h1
    obtain ⟨i, m⟩ := found
    have hbase : m.base ≤ address := hf.base
    have hlimit : address + 1 ≤ m.base + m.size := hf.limit
    have hr1 := hcalm.regular hr
    have hno1 := hcalm.noneFails hr hno
    have hm1 : m ∈ s1.mappings := hcalm.touches.mappings_eq ▸ hf.mem
    dsimp only
    split
    · next hone =>
      have hfits : address - m.base + data.length ≤ m.size := by omega
      refine .bind (materializeFileBytes_settles hr1 hm1 hfits
        (hno1.chunk hm1 hbase le_rfl hfits)) fun _ _ _ => ?_
      exact .bind (storeChunk_settles _ _ _ _) fun _ _ _ => bumpIf_settles _
    · refine .bind (validateWrite_settles _ _ _ hr1 hno1) fun _ _ _ => ?_
      exact .bind (copyBytes_settles _ _ _) fun _ _ _ => bumpIf_settles _

/-- A write that throws and meets no throwing page changes nothing that is seen. -/
theorem writeBytes_error (hr : Regular s) {address : Nat} {data : List Byte} {e : AccessError}
    (hno : NoneFails s address data.length) (h : writeBytes address data s = (.error e, s')) :
    SameMemory s s' := by
  have hsettles := writeBytes_settles hr hno
  rw [Settles, h] at hsettles
  obtain ⟨-, hnone⟩ := Post.of_error (writeBytes_spec hr.inv.settled address data) hsettles
  obtain ⟨-, flag, s1, htouches, heq⟩ := hnone hr.backed
  have hmappings : s'.settled.mappings = (bumped flag s1).mappings := congrArg _ heq
  refine ⟨hmappings.trans htouches.mappings_eq, fun m hm => ?_⟩
  rw [heq]
  exact (htouches.sameBytes hr.inv.settled hr.lazyInv hm).trans
    (.of_eq (fun _ _ => rfl) fun _ _ => rfl)

/-! ## Words that are written one after the other -/

theorem Found.of_mappings {address size i : Nat} {required : Permission}
    (h : Found s address size required i m) (hs : s'.mappings = s.mappings) :
    Found s' address size required i m :=
  ⟨by rw [hs]; exact h.index, h.base, h.limit, h.permitted⟩

/-- A check that returns has found every byte. -/
theorem validateFrom_found (required : Permission) :
    ∀ (fuel cursor remaining : Nat) {s : AddressSpace}, Inv s → remaining ≤ fuel →
      Post (validateFrom required fuel cursor remaining) s
        (fun _ _ => ∀ k < remaining, ∃ i m, Found s (cursor + k) 1 required i m) fun _ _ => True
  | 0, _, _, _, _, hfuel => Post.pure fun k hk => by omega
  | fuel + 1, cursor, remaining, s, hi, hfuel => by
    rw [validateFrom]
    split
    · exact Post.pure fun k hk => by omega
    · refine Post.bind (Post.mono (find_spec hi Nat.one_pos required) ?_ fun _ _ _ => trivial)
      rintro ⟨i, m⟩ s1 ⟨hs1, hf⟩
      dsimp only at hf ⊢
      generalize hchunk : min remaining (m.size - (cursor - m.base)) = chunk
      obtain ⟨hbase, hfits, hle, hpos, hnext⟩ := hf.chunk hi hchunk
      rw [Nat.mod_eq_of_lt hnext]
      refine Post.mono (validateFrom_found required fuel (cursor + chunk) (remaining - chunk)
        (hs1.inv hi) (by omega)) ?_ fun _ _ h => h
      intro _ _ hrest k hk
      rcases Nat.lt_or_ge k chunk with hkc | hkc
      · exact ⟨i, m, hf.index, by omega, by omega, hf.permitted⟩
      · obtain ⟨j, m', hf'⟩ := hrest (k - chunk) (by omega)
        rw [show cursor + chunk + (k - chunk) = cursor + k by omega] at hf'
        exact ⟨j, m', hf'.of_mappings hs1.mappings_eq.symm⟩

/-- A lookup of a byte that is there. -/
theorem find_returns (hi : Inv s) {address i : Nat} {required : Permission}
    (hf : Found s address 1 required i m) :
    Post (find address 1 required) s (fun found s' => found = (i, m) ∧ Calm s s')
      fun _ _ => False := by
  have hcalm := find_calm hi address required
  refine Post.mono (Post.and (find_found hi Nat.one_pos hf)
    (Post.of_final hcalm)) ?_ fun _ _ h => h.1
  rintro found s' ⟨⟨rfl, -⟩, hcalm⟩
  exact ⟨rfl, hcalm⟩

theorem validateWrite_returns : ∀ (fuel cursor remaining : Nat) {s : AddressSpace}, Regular s →
    NoneFails s cursor remaining →
    (∀ k < remaining, ∃ i m, Found s (cursor + k) 1 { write := true } i m) →
    Post (validateWrite fuel cursor remaining) s (fun _ _ => True) fun _ _ => False
  | 0, _, _, _, _, _, _ => Post.pure trivial
  | fuel + 1, cursor, remaining, s, hr, hno, hfound => by
    rw [validateWrite]
    split
    · exact Post.pure trivial
    · obtain ⟨i, m, hf⟩ := hfound 0 (by omega)
      refine Post.bind (Post.mono (find_returns hr.inv hf) ?_ fun _ _ h => h)
      rintro found s1 ⟨rfl, hcalm⟩
      dsimp only
      generalize hchunk : min remaining (m.size - (cursor - m.base)) = chunk
      obtain ⟨hbase, hfits, hle, hpos, hnext⟩ : ChunkAt m cursor remaining chunk :=
        hf.chunk hr.inv hchunk
      have hr1 := hcalm.regular hr
      have hno1 := hcalm.noneFails hr hno
      have hm1 : m ∈ s1.mappings := hcalm.touches.mappings_eq ▸ hf.mem
      refine Post.bind (Post.mono (materializeFileBytes_returns hr1 hm1 hfits
        (hno1.chunk hm1 hbase (by omega) hfits)) ?_ fun _ _ h => h)
      intro _ s2 hcalm2
      rw [Nat.mod_eq_of_lt hnext]
      refine Post.bind (Post.mono (validateWrite_returns fuel (cursor + chunk) (remaining - chunk)
        (hcalm2.regular hr1) ((hcalm2.noneFails hr1 hno1).drop chunk (by omega)) ?_)
        (fun _ _ _ => Post.pure trivial) fun _ _ h => h)
      intro k hk
      obtain ⟨j, m', hf'⟩ := hfound (chunk + k) (by omega)
      rw [← Nat.add_assoc] at hf'
      exact ⟨j, m', hf'.of_mappings (hcalm.trans hcalm2).touches.mappings_eq⟩

/-- A write of bytes that are there and meet no throwing page does not throw. -/
theorem writeBytes_returns (hr : Regular s) {address : Nat} {data : List Byte}
    (hno : NoneFails s address data.length)
    (hfound : ∀ k < data.length, ∃ i m, Found s (address + k) 1 { write := true } i m) :
    Post (writeBytes address data) s (fun _ _ => True) fun _ _ => False := by
  unfold writeBytes
  split
  · exact Post.pure trivial
  · next hne =>
    obtain ⟨i, m, hf⟩ := hfound 0 (List.length_pos_iff.mpr hne)
    refine Post.bind (Post.mono (find_returns hr.inv hf) ?_ fun _ _ h => h)
    rintro found s1 ⟨rfl, hcalm⟩
    have hbase : m.base ≤ address := hf.base
    have hlimit : address + 1 ≤ m.base + m.size := hf.limit
    have hr1 := hcalm.regular hr
    have hno1 := hcalm.noneFails hr hno
    have hf1 := hf.of_mappings hcalm.touches.mappings_eq
    have hacc := hf.accessible (by decide)
    dsimp only
    split
    · next hone =>
      have hfits : address - m.base + data.length ≤ m.size := by omega
      refine Post.bind (Post.mono (materializeFileBytes_returns hr1 hf1.mem hfits
        (hno1.chunk hf1.mem hbase le_rfl hfits)) ?_ fun _ _ h => h)
      intro _ s2 hcalm2
      have hr2 := hcalm2.regular hr1
      have hf2 := hf1.of_mappings hcalm2.touches.mappings_eq
      refine Post.bind (Post.mono (storeChunk_spec hr2.inv hf2.index hacc hfits) ?_ ?_)
      · intro _ _ _
        exact Post.modify trivial
      · rintro _ _ ⟨-, hbacked⟩
        exact hbacked hr2.backed
    · have hfound1 (k : Nat) (hk : k < data.length) :
          ∃ i m, Found s1 (address + k) 1 { write := true } i m := by
        obtain ⟨j, m', hf'⟩ := hfound k hk
        exact ⟨j, m', hf'.of_mappings hcalm.touches.mappings_eq⟩
      refine Post.bind (Post.mono (Post.and
        (validateWrite_spec data.length address data.length hr1.inv le_rfl)
        (validateWrite_returns _ _ _ hr1 hno1 hfound1)) ?_ fun _ _ h => h.2)
      rintro flag s2 ⟨⟨hs2, hwritable, -⟩, -⟩
      refine Post.bind (Post.mono (copyBytes_spec _ _ data (hs2.inv hr1.inv) le_rfl hwritable)
        ?_ ?_)
      · intro _ _ _
        exact Post.modify trivial
      · rintro _ _ ⟨-, hbacked⟩
        exact hbacked (hs2.backed hr1.backed)

/-- A store goes to pages that are ready, and does not make another page throw. -/
theorem pageFails_storeBytes (hi : Inv s) (hl : LazyInv s) (hm : m ∈ s.mappings) {m0 : Mapping}
    {i offset : Nat} {data : List Byte} (hm0 : s.mappings[i]? = some m0)
    (hfits : offset + data.length ≤ m0.size) (hready : ∀ k < data.length, s.Ready m0 (offset + k))
    (o : Nat) : (storeBytes i m0 offset data s).pageFails m o = s.pageFails m o := by
  unfold pageFails
  split
  · next f t hfile ht =>
    unfold storeBytes
    split
    · next f0 hfile0 =>
      by_cases hf : f = f0
      · subst hf
        simp only [Function.update_self, fails]
        cases hp : (s.transforms t).transformedPages
            ((s.transforms t).filePage (m.fileDataOffset + o)) with
        | true => rfl
        | false =>
          rw [(transformPage_depends (hl.pageLocal m hm t ht) fun j hj hpage => ?_).1]
          refine overwrite_of_not_mem fun k hk he => ?_
          -- the stored byte would be on the page, which is not ready
          have hcover : (s.transforms t).Covers (m0.fileDataOffset + (offset + k)) := by
            rw [← Nat.add_assoc, ← he]
            exact hj
          have hlazy0 := hl.covering m hm m0 (List.mem_of_getElem? hm0) t ht
            (hfile.trans hfile0.symm) (offset + k) (by omega) hcover
          have := hready k hk t hlazy0
          rw [pageOf_eq_filePage, ← Nat.add_assoc, ← he, hpage, hp] at this
          cases this
      · simp [hf]
    · rfl
  · rfl

theorem pageFails_of_sameShape {m' : Mapping} (h : m.SameShape m') (o : Nat) :
    s.pageFails m' o = s.pageFails m o := by
  unfold pageFails
  rw [h.fileBytes, h.lazyFileTransform, h.fileDataOffset]

theorem Touches.pageFails {allowed : Mapping → Prop} (hi : Inv s) (hl : LazyInv s)
    (h : Touches allowed s s') (hm : m ∈ s.mappings) {o : Nat} (ho : o < m.size) :
    s'.pageFails m o = s.pageFails m o := by
  induction h with
  | refl => rfl
  | @tail s1 s2 hs ht ih =>
    have hs : Touches allowed s s1 := hs
    have hi1 := hs.inv hi
    have hl1 := hl.of_sameShape hs.sameShape
    obtain ⟨m1, hm1, hshape⟩ := hs.sameShape.mem' hm
    rw [← ih, ← pageFails_of_sameShape hshape, ← pageFails_of_sameShape hshape]
    cases ht with
    | lookup => rfl
    | transform hm0 hf ht ho' hnew =>
      exact (sameBytes_applyTransform hi1 hl1 hm1 hm0 hf ht hnew o (hshape.size ▸ ho)).1
    | store hm0 _ hfits hready => exact pageFails_storeBytes hi1 hl1 hm1 hm0 hfits hready o

/-- What a write that returns leaves for the next one. -/
theorem writeBytes_ok (hr : Regular s) {address : Nat} {data : List Byte}
    (hno : NoneFails s address data.length) (h : writeBytes address data s = (.ok (), s')) :
    Regular s' ∧ (∀ a n, NoneFails s a n → NoneFails s' a n) ∧
      ∀ a required, (∃ i m, Found s a 1 required i m) → ∃ i m, Found s' a 1 required i m := by
  have hsettles := writeBytes_settles hr hno
  rw [Settles, h] at hsettles
  obtain ⟨flag, s1, htouches, rfl⟩ := Post.of_ok (writeBytes_spec hr.inv address data) h
  obtain ⟨flag', s2, htouches', heq⟩ :=
    Post.of_ok (writeBytes_spec hr.inv.settled address data) hsettles
  have hlazy : LazyInv (bumped flag s1).settled := by
    rw [heq]
    exact (hr.lazyInv.of_sameShape htouches'.sameShape).bump
  refine ⟨⟨bumped_inv (htouches.inv hr.inv), htouches.backed hr.backed, hlazy⟩, ?_, ?_⟩
  · intro a n hnone m' hm' o ho h1 h2
    obtain ⟨m, hm, hshape⟩ := htouches.sameShape.mem hm'
    have hfails : (bumped flag s1).settled.pageFails m o = s.settled.pageFails m o := by
      rw [heq]
      exact htouches'.pageFails hr.inv.settled hr.lazyInv hm (hshape.size ▸ ho)
    rw [pageFails_settled, pageFails_settled] at hfails
    rw [pageFails_of_sameShape hshape, hfails]
    rw [hshape.base] at h1 h2
    exact hnone m hm o (hshape.size ▸ ho) h1 h2
  · rintro a required ⟨i, m, hf⟩
    obtain ⟨m', hm', hshape⟩ := htouches.sameShape.getElem?' hf.index
    refine ⟨i, m', hm', ?_, ?_, ?_⟩
    · rw [hshape.base]
      exact hf.base
    · rw [hshape.base, hshape.size]
      exact hf.limit
    · rw [hshape.permissions]
      exact hf.permitted

/-! ## Every sequence of calls -/

theorem SameShape.settled (h : SameShape s s') : SameShape s.settled s'.settled where
  mappings := h.mappings
  fileCount := h.fileCount
  transformCount := h.transformCount
  files := h.files
  transforms t := by
    obtain ⟨h1, h2, h3, h4⟩ := h.transforms t
    exact ⟨h1, h2, h3, congrArg cleanedTransform h4⟩

theorem Added.settled (h : Added s m s') : Added s.settled m s'.settled where
  fits := ⟨h.fits.nonempty, h.fits.baseAligned, h.fits.sizeAligned, h.fits.below, h.fits.within,
    h.fits.free⟩
  notLazy := h.notLazy
  sparse := h.sparse
  backing := h.backing
  space := by
    rcases h.space with ⟨hfile, hbytes, rfl⟩ | ⟨hfile, hbytes, file, hsize, rfl⟩
    · exact .inl ⟨hfile, hbytes, rfl⟩
    · exact .inr ⟨hfile, hbytes, file, hsize, rfl⟩

theorem BatchAdded.settled {pending : List Mapping} {flag : Bool}
    (h : BatchAdded s pending flag s') : BatchAdded s.settled pending flag s'.settled where
  space := by
    rw [h.space]
    rfl
  sorted := h.sorted
  fits p hp := by
    obtain ⟨h1, h2, h3, h4, h5, h6⟩ := h.fits p hp
    exact ⟨h1, h2, h3, h4, h5, h6⟩
  plain := h.plain
  counted := h.counted

theorem Installed.settled {i pageSize : Nat} {transform : PageTransform}
    (h : Installed s i pageSize m transform s') :
    Installed s.settled i pageSize m (cleanedTransform transform) s'.settled where
  index := h.index
  file := h.file
  pages := h.pages
  geometry := h.geometry
  space := by
    rw [h.space]
    simp only [AddressSpace.settled]
    congr 1
    funext t
    by_cases ht : t = s.transformCount
    · subst ht
      simp [LazyFilePageTransform.cleaned]
    · simp [Function.update_of_ne ht]

/-- The call makes no reservation accessible, and a callback that it installs works on its page
and is the first of its mapping. -/
def Call.StaysRegular (s : AddressSpace) : Call → Prop
  | .installLazyFilePageTransform base pageSize (some transform) =>
    ∀ m ∈ s.mappings, m.base = base.toNat → m.lazyFileTransform = none ∧
      PageLocal (cleanedTransform transform) pageSize.toNat m.size
  | call => call.SparesReservations s

/-- The call installs no callback that works outside its page, and none on a mapping that has
one. -/
def Call.InstallsLocal (s : AddressSpace) : Call → Prop
  | .installLazyFilePageTransform base pageSize (some transform) =>
    ∀ m ∈ s.mappings, m.base = base.toNat → m.lazyFileTransform = none ∧
      PageLocal (cleanedTransform transform) pageSize.toNat m.size
  | _ => True

theorem Call.StaysRegular.installsLocal {call : Call} (h : call.StaysRegular s) :
    call.InstallsLocal s := by
  unfold InstallsLocal
  split
  · exact h
  · trivial

theorem Call.StaysRegular.sparesReservations {call : Call} (h : call.StaysRegular s) :
    call.SparesReservations s := by
  cases call with
  | installLazyFilePageTransform => trivial
  | _ => exact h

theorem Effect.lazyInv_settled {call : Call} (hr : Orderly s) (h : Effect s call s')
    (hcall : call.InstallsLocal s) : LazyInv s'.settled := by
  have hl := hr.lazyInv
  cases h with
  | stores h =>
    obtain ⟨flag, s1, h1, rfl⟩ := h
    exact (hl.of_sameShape h1.sameShape.settled).bump
  | added h => exact h.settled.lazyInv hr.inv.settled hl
  | batchAdded h => exact h.settled.lazyInv hr.inv.settled hl
  | @populated address data s1 i a hdata hs hf hsparse =>
    have hindex : s1.mappings[i]? = some a := hs.mappings_eq ▸ hf.index
    exact (hl.of_sameShape hs.sameShape.settled).of_sameShape
      (SameShape.set hindex (populated_sameShape _ _ _)).settled
  | isProtected h =>
    rw [h.space]
    exact hl.flatMap fun a ha p hp => ((h.pieces hr.inv ha).1 p hp).1
  | deallocated h =>
    rw [h.space]
    exact hl.flatMap fun a ha p hp => ((h.pieces hr.inv ha).1 p hp).1
  | installed hbase h =>
    obtain ⟨hnone, hlocal⟩ := hcall _ (List.mem_of_getElem? h.index) hbase
    exact h.settled.lazyInv hr.inv.settled hl hnone hlocal

theorem Regular.initial : Regular {} where
  inv := .initial
  backed := by simp [Backed]
  lazyInv := ⟨by simp [AddressSpace.settled], by simp [AddressSpace.settled],
    by simp [AddressSpace.settled], by simp [AddressSpace.settled]⟩

theorem Regular.after {call : Call} (hr : Regular s) (hcall : call.StaysRegular s) :
    Regular (s.after call) := by
  have he := (after_effect hr.inv hr.backed call).1
  exact ⟨he.inv hr.inv, he.backed hr.inv hr.backed hcall.sparesReservations,
    he.lazyInv_settled hr hcall.installsLocal⟩

theorem Orderly.after {call : Call} (hr : Orderly s) (hcall : call.InstallsLocal s) :
    Orderly (s.after call) := by
  refine ⟨after_inv hr.inv call, ?_⟩
  have h := run_outcome hr.inv call
  unfold Post at h
  unfold AddressSpace.after
  split at h
  · next hx =>
    rw [hx]
    exact h.lazyInv_settled hr hcall
  · next hx =>
    rw [hx]
    obtain ⟨⟨flag, s1, h1, rfl⟩, -⟩ := h
    exact (hr.lazyInv.of_sameShape h1.sameShape.settled).bump

/-- Every space that calls lead to is orderly, whatever they make accessible. -/
theorem orderly_afterAll {calls : List Call}
    (h : Along (fun s call => call.InstallsLocal s) {} calls) : Orderly (afterAll {} calls) :=
  Along.induction (P := Orderly) (fun _ _ hr hcall => hr.after hcall) Regular.initial.orderly h

/-- Every space that such calls lead to is regular. -/
theorem regular_afterAll {calls : List Call}
    (h : Along (fun s call => call.StaysRegular s) {} calls) : Regular (afterAll {} calls) :=
  Along.induction (P := Regular) (fun _ _ hr hcall => hr.after hcall) .initial h

end AddressSpace

end Rosa
