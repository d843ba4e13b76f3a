import Rosa.Guest.Slices

/-!
# Sequences of calls

`run_outcome` says once what a call can do to an address space; what holds of every
reachable space is derived from it. The representation is well formed as long as no
private-copy `protect` makes a reservation accessible : the slice gets the permissions
that were asked for as its maximum, but the bytes it would need were never allocated,
and the accessors do not look.
-/

namespace Rosa

namespace AddressSpace

open Rosa.Computation

variable {s s' : AddressSpace}

/-! ## Sparse data and lazy transforms -/

/-- The sparse mapping with data filled in. -/
def populated (m : Mapping) (offset : Nat) (data : List Byte) : Mapping :=
  { m with
    readableBytes :=
      ⟨m.readableBytes.size,
        overwrite m.readableBytes.get offset (List.replicate data.length true)⟩
    bytes := ⟨m.bytes.size, overwrite m.bytes.get offset data⟩ }

theorem populateSparseReadOnly_spec (hi : Inv s) (address : Nat) (data : List Byte) :
    Post (populateSparseReadOnly address data) s
      (fun _ s' => s' = s ∨ ∃ s1 i m, data ≠ [] ∧ Touches nowhere s s1 ∧
        Found s address data.length { read := true } i m ∧ m.readableBytes.size ≠ 0 ∧
        s' = { s1 with mappings := s1.mappings.set i (populated m (address - m.base) data) })
      fun e s' => Touches nowhere s s' ∧ (Backed s → e ≠ .outsideBacking) := by
  unfold populateSparseReadOnly
  split
  · exact Post.pure (.inl rfl)
  · next hne =>
    have hlen : 0 < data.length := List.length_pos_iff.mpr hne
    refine Post.bind (Post.mono (find_spec hi hlen _) ?_ ?_)
    · rintro ⟨i, m⟩ s1 ⟨hs1, hf⟩
      dsimp only
      have hshape := (hi.shaped m hf.mem).readable
      have h1 : m.base ≤ address := hf.base
      have h2 : address + data.length ≤ m.base + m.size := hf.limit
      refine Post.bind (Post.raiseIf (fun _ => ⟨hs1, by simp⟩) fun hsparse => ?_)
      have hsparse' : m.readableBytes.size ≠ 0 := by simpa using hsparse
      obtain ⟨hr, hb⟩ := hshape.resolve_left hsparse'
      refine Post.bind (Post.raiseIf (fun hc => ?_) fun _ => Post.bind (Post.raiseIf (fun hc => ?_)
        fun _ => Post.modify (.inr ⟨s1, i, m, hne, hs1, hf, hsparse', rfl⟩)))
      · simp only [decide_eq_true_eq] at hc
        omega
      · simp only [decide_eq_true_eq] at hc
        omega
    · rintro e s1 h
      exact h

theorem populated_sameShape (m : Mapping) (offset : Nat) (data : List Byte) :
    m.SameShape (populated m offset data) := ⟨rfl, rfl, rfl, rfl, rfl, rfl, rfl, rfl, rfl⟩

/-- A mapping may be replaced by one of the same shape. -/
theorem SameShape.set {i : Nat} {m m' : Mapping} (hm : s.mappings[i]? = some m)
    (h : m.SameShape m') : SameShape s { s with mappings := s.mappings.set i m' } :=
  ⟨forall₂_set hm h, rfl, rfl, fun _ => rfl, fun _ => ⟨rfl, rfl, rfl, rfl⟩⟩

theorem Inv.set (hi : Inv s) {i : Nat} {m m' : Mapping} (hm : s.mappings[i]? = some m)
    (h : m.SameShape m') : Inv { s with mappings := s.mappings.set i m' } :=
  hi.of_sameShape (.set hm h) (hi.lookup.of_sameShape (.set hm h) rfl)

theorem SameShape.backed (h : SameShape s s') (hb : Backed s) : Backed s' := by
  intro m' hm' hmax
  obtain ⟨m, hm, he⟩ := h.mem hm'
  rw [Mapping.HasBacking, he.fileBytes, he.bytes, he.size]
  exact hb m hm (he.maximumPermissions ▸ hmax)

/-- The space after a lazy transform was installed on the mapping at index `i`. -/
structure Installed (s : AddressSpace) (i pageSize : Nat) (m : Mapping)
    (transform : PageTransform) (s' : AddressSpace) : Prop where
  index : s.mappings[i]? = some m
  file : m.fileBytes.isSome = true
  pages : 0 < pageSize
  geometry : m.size % pageSize = 0
  space : s' =
    { s with
      transforms := Function.update s.transforms s.transformCount
        ⟨m.fileDataOffset, m.size, pageSize, fun _ => false, transform⟩
      transformCount := s.transformCount + 1
      mappings := s.mappings.set i { m with lazyFileTransform := some s.transformCount } }

theorem installLazyFilePageTransform_spec (base pageSize : Nat)
    (transform : Option PageTransform) :
    Post (installLazyFilePageTransform base pageSize transform) s
      (fun _ s' => ∃ f m, transform = some f ∧
        s.mappings[lowerBound s.mappings base]? = some m ∧ m.base = base ∧
        Installed s (lowerBound s.mappings base) pageSize m f s') (Refused s) := by
  unfold installLazyFilePageTransform
  cases transform with
  | none => exact ⟨rfl, by simp⟩
  | some f =>
    refine Post.failIf_bind fun hp => Post.bind (Post.get ?_)
    dsimp only
    cases hm : s.mappings[lowerBound s.mappings base]? with
    | none => exact ⟨rfl, by simp⟩
    | some m =>
      refine Post.failIf_bind fun hc => Post.failIf_bind fun hsize => ?_
      simp only [Bool.or_eq_false_iff, bne_eq_false_iff_eq] at hc
      have hfile : m.fileBytes.isSome = true := by
        simpa [Option.isSome_iff_ne_none] using hc.2
      exact ⟨f, m, rfl, rfl, hc.1, hm, hfile, Nat.pos_of_ne_zero (by simpa using hp),
        by simpa using hsize, rfl⟩

theorem Installed.mem {i pageSize : Nat} {m a : Mapping} {f : PageTransform}
    (h : Installed s i pageSize m f s') (ha : a ∈ s'.mappings) :
    a ∈ s.mappings ∨ a = { m with lazyFileTransform := some s.transformCount } := by
  rw [h.space] at ha
  exact List.mem_or_eq_of_mem_set ha

theorem Installed.inv {i pageSize : Nat} {m : Mapping} {f : PageTransform} (hi : Inv s)
    (h : Installed s i pageSize m f s') : Inv s' := by
  have hm := List.mem_of_getElem? h.index
  obtain ⟨file, hfile⟩ := Option.isSome_iff_exists.mp h.file
  have hshaped := hi.shaped m hm
  refine ⟨?_, ?_, ?_, ?_, ?_⟩
  · intro a ha
    rcases h.mem ha with ha | rfl
    · exact hi.placed a ha
    · have := hi.placed m hm
      exact ⟨this.nonempty, this.baseAligned, this.sizeAligned, this.below, this.within⟩
  · rw [h.space]
    refine List.pairwise_iff_getElem.mpr fun j k hj hk hjk => ?_
    have key (n : Nat) (hn : n < (s.mappings.set i
        { m with lazyFileTransform := some s.transformCount }).length) :
        ∃ a, s.mappings[n]? = some a ∧ a.base = ((s.mappings.set i _)[n]).base ∧
          a.size = ((s.mappings.set i _)[n]).size := by
      rw [List.length_set] at hn
      rw [List.getElem_set]
      split
      · next hin => exact ⟨m, hin ▸ h.index, rfl, rfl⟩
      · exact ⟨_, List.getElem?_eq_getElem hn, rfl, rfl⟩
    obtain ⟨a, ha, hab, has⟩ := key j hj
    obtain ⟨b, hb, hbb, -⟩ := key k hk
    obtain ⟨hj', rfl⟩ := List.getElem?_eq_some_iff.mp ha
    obtain ⟨hk', rfl⟩ := List.getElem?_eq_some_iff.mp hb
    have := List.pairwise_iff_getElem.mp hi.sorted j k hj' hk' hjk
    dsimp only at *
    omega
  · intro a ha
    have hkeep (b : Mapping) (hb : b.Shaped s) : b.Shaped s' := by
      refine ⟨hb.bytes, hb.readable, ?_, fun t ht => ?_⟩
      · rw [h.space]
        exact hb.file
      · obtain ⟨h1, h2⟩ := hb.lazyTransform t ht
        have hne : t ≠ s.transformCount := Nat.ne_of_lt h1
        rw [h.space]
        simp only [Function.update_of_ne hne]
        exact ⟨Nat.lt_succ_of_lt h1, h2⟩
    rcases h.mem ha with ha | rfl
    · exact hkeep a (hi.shaped a ha)
    · have hb := hkeep m hshaped
      refine ⟨hb.bytes, hb.readable, hb.file, fun t ht => ?_⟩
      obtain rfl : s.transformCount = t := by simpa using ht
      rw [h.space]
      simp only [Function.update_self]
      exact ⟨Nat.lt_succ_self _, h.pages, le_refl _, le_refl _, file, hfile,
        (hshaped.file file hfile).2⟩
  · intro a ha b hb g hga hgb
    have key (c : Mapping) (hc : c ∈ s'.mappings) : ∃ c' ∈ s.mappings, c'.base = c.base ∧
        c'.fileBytes = c.fileBytes ∧ c'.fileDataOffset = c.fileDataOffset := by
      rcases h.mem hc with hc | rfl
      · exact ⟨c, hc, rfl, rfl, rfl⟩
      · exact ⟨m, hm, rfl, rfl, rfl⟩
    obtain ⟨a', ha', h1, h2, h3⟩ := key a ha
    obtain ⟨b', hb', g1, g2, g3⟩ := key b hb
    rw [← h1, ← h3, ← g1, ← g3]
    exact hi.shift a' ha' b' hb' g (h2.trans hga) (g2.trans hgb)
  · intro slot entry he
    rw [h.space] at he
    obtain ⟨a, ha, hab, hal⟩ := hi.lookup slot entry he
    obtain ⟨j, hj⟩ := List.getElem?_of_mem ha
    rw [h.space]
    by_cases hij : i = j
    · obtain rfl : m = a := by simpa [hij, hj] using h.index.symm
      refine ⟨{ m with lazyFileTransform := some s.transformCount }, ?_, hab, hal⟩
      obtain ⟨hlt, -⟩ := List.getElem?_eq_some_iff.mp hj
      exact List.mem_of_getElem? (i := j) (by simp [hij, hlt])
    · exact ⟨a, List.mem_of_getElem? (i := j) (by simp [hij, hj]), hab, hal⟩

theorem Installed.backed {i pageSize : Nat} {m : Mapping} {f : PageTransform}
    (h : Installed s i pageSize m f s') (hb : Backed s) : Backed s' := by
  intro a ha hmax
  rcases h.mem ha with ha | rfl
  · exact hb a ha hmax
  · exact .inl h.file

/-! ## What a call can do -/

/-- The spaces a call can lead to, whether it returns or throws. -/
inductive Effect (s : AddressSpace) : Call → AddressSpace → Prop
  | stores {call : Call} {s' : AddressSpace} (h : Stores s s') : Effect s call s'
  | added {call : Call} {s' : AddressSpace} {m : Mapping} (h : Added s m s') : Effect s call s'
  | batchAdded {call : Call} {s' : AddressSpace} {pending : List Mapping} {flag : Bool}
      (h : BatchAdded s pending flag s') : Effect s call s'
  | populated {address : BitVec 64} {data : List Byte} {s1 : AddressSpace} {i : Nat} {m : Mapping}
      (hdata : data ≠ []) (hs : Touches nowhere s s1)
      (hf : Found s address.toNat data.length { read := true } i m)
      (hsparse : m.readableBytes.size ≠ 0) :
      Effect s (.populateSparseReadOnly address data)
        { s1 with
          mappings := s1.mappings.set i (populated m (address.toNat - m.base) data) }
  | isProtected {address size : BitVec 64} {permissions : Permission} {makePrivateCopy : Bool}
      {start limit : Nat} {flag : Bool} {s' : AddressSpace}
      (h : Protected s address.toNat size.toNat permissions makePrivateCopy start limit flag s') :
      Effect s (.protect address size permissions makePrivateCopy) s'
  | deallocated {call : Call} {address size start limit : Nat} {flag : Bool} {s' : AddressSpace}
      (h : Deallocated s address size start limit flag s') : Effect s call s'
  | installed {base pageSize : BitVec 64} {f : PageTransform} {m : Mapping} {s' : AddressSpace}
      (hbase : m.base = base.toNat)
      (h : Installed s (lowerBound s.mappings base.toNat) pageSize.toNat m f s') :
      Effect s (.installLazyFilePageTransform base pageSize (some f)) s'

theorem Effect.refl (call : Call) : Effect s call s := .stores (.refl s)

theorem Effect.of_touches {call : Call} (h : Touches nowhere s s') : Effect s call s' :=
  .stores ⟨false, s', h.mono fun _ h => h.elim, rfl⟩

/-- What a call that throws leaves in any space : stores that may not have been counted. -/
def Interrupted (s s' : AddressSpace) : Prop :=
  ∃ flag s1, Touches (fun _ => True) s s1 ∧ s' = bumped flag s1

theorem Interrupted.of_touches {allowed : Mapping → Prop} (h : Touches allowed s s') :
    Interrupted s s' := ⟨false, s', h.mono fun _ _ => trivial, rfl⟩

theorem Interrupted.inv (hi : Inv s) (h : Interrupted s s') : Inv s' := by
  obtain ⟨flag, s1, h1, rfl⟩ := h
  exact bumped_inv (h1.inv hi)

/-- What a call that throws can do; in a backed space it is one of the effects. -/
def Throws (s : AddressSpace) (call : Call) (e : AccessError) (s' : AddressSpace) : Prop :=
  Interrupted s s' ∧ (Backed s → Effect s call s' ∧ e ≠ .outsideBacking)

theorem Throws.of_refused {call : Call} {e : AccessError} (h : Refused s e s') :
    Throws s call e s' := by
  obtain ⟨rfl, he⟩ := h
  exact ⟨.of_touches (.refl : Touches nowhere _ _), fun _ => ⟨.refl _, he⟩⟩

theorem Throws.of_touches {call : Call} {e : AccessError} (h : Touches nowhere s s')
    (he : Backed s → e ≠ .outsideBacking) : Throws s call e s' :=
  ⟨.of_touches h, fun hb => ⟨.of_touches h, he hb⟩⟩

/-- One call. -/
theorem run_outcome (hi : Inv s) (call : Call) :
    Post call.run s (fun _ s' => Effect s call s') fun e s' => Throws s call e s' := by
  have hread {α : Type} {x : Access α} {R : α → AddressSpace → Prop} (h : ReadSpec s x R) :
      Post (ignore x) s (fun _ s' => Effect s call s') fun e s' => Throws s call e s' :=
    Post.bind (Post.mono h (fun _ s' h => Post.pure (.of_touches h.1))
      fun e s' h => .of_touches h.1 h.2)
  have hwrite {x : Access Unit} (h : WriteSpec s x) :
      Post x s (fun _ s' => Effect s call s') fun e s' => Throws s call e s' := by
    refine Post.mono h (fun _ s' h => .stores h) fun e s' h => ⟨h.1, fun hb => ?_⟩
    obtain ⟨he, flag, s1, h1, rfl⟩ := h.2 hb
    exact ⟨.stores ⟨flag, s1, h1.mono fun _ h => h.elim, rfl⟩, he⟩
  have hmap {x : Access Unit}
      (h : Post x s (fun _ s' => ∃ m, Added s m s') (Refused s)) :
      Post x s (fun _ s' => Effect s call s') fun e s' => Throws s call e s' :=
    Post.mono h (fun _ s' ⟨m, h⟩ => .added h) fun _ _ h => .of_refused h
  cases call with
  | mapAnonymous base size permissions maximum label refused =>
    exact hmap (mapAnonymous_spec hi size.isLt _ _ _ _)
  | mapSegment base size permissions maximum fileBytes label =>
    exact hmap (mapSegment_spec hi size.isLt _ _ _ _)
  | mapFileSegment base size permissions maximum file fileOffset label =>
    exact hmap (mapFileSegment_spec hi size.isLt _ _ _ _ _)
  | mapSparseReadOnly base size dataOffset data label =>
    exact hmap (mapSparseReadOnly_spec hi size.isLt _ _ _)
  | mapSegments requests =>
    refine Post.mono (mapSegments_spec hi requests) ?_ fun _ _ h => .of_refused h
    rintro _ s' (rfl | ⟨pending, flag, h⟩)
    · exact .refl _
    · exact .batchAdded h
  | populateSparseReadOnly address data =>
    refine Post.mono (populateSparseReadOnly_spec hi address.toNat data) ?_
      fun _ _ h => .of_touches h.1 h.2
    rintro _ s' (rfl | ⟨s1, i, m, hdata, hs, hf, hsparse, rfl⟩)
    · exact .refl _
    · exact .populated hdata hs hf hsparse
  | protect address size permissions makePrivateCopy =>
    refine Post.bind (Post.mono (protect_spec address.toNat size.toNat _ _) ?_
      fun _ _ h => h.elim)
    rintro _ s' (rfl | ⟨start, limit, flag, h⟩)
    · exact Post.pure (.refl _)
    · exact Post.pure (.isProtected h)
  | deallocate address size =>
    refine Post.bind (Post.mono (deallocate_spec hi address.toNat size.toNat) ?_
      fun _ _ h => h.elim)
    rintro _ s' (⟨rfl, -⟩ | ⟨-, start, limit, flag, h⟩)
    · exact Post.pure (.refl _)
    · exact Post.pure (.deallocated h)
  | readBytes address size => exact hread (readFrom_spec _ _ _ hi)
  | readWord address size => exact hread (readWord_spec hi _ _)
  | validateAccess address size required =>
    exact Post.mono (validateFrom_spec required _ _ _ hi) (fun _ s' h => .of_touches h.1)
      fun e s' h => .of_touches h.1 h.2
  | writeBytes address data => exact hwrite (writeBytes_spec hi _ _)
  | writeWord address size value => exact hwrite (writeBytes_spec hi _ _)
  | directMemoryView address required => exact hread (directMemoryView_spec hi _ _)
  | writeDirect address required offset data => exact hwrite (writeDirect_spec hi _ _ _ _)
  | executableBytes address => exact hread (executableBytes_spec hi _)
  | installLazyFilePageTransform base pageSize transform =>
    refine Post.mono (installLazyFilePageTransform_spec base.toNat pageSize.toNat transform) ?_
      fun _ _ h => .of_refused h
    rintro _ s' ⟨f, m, rfl, -, hbase, h⟩
    exact .installed hbase h
  | mutablePrivateFileMappingBytes base edit =>
    exact hwrite (mutablePrivateFileMappingBytes_spec hi _ _)

theorem after_effect (hi : Inv s) (hb : Backed s) (call : Call) :
    Effect s call (s.after call) ∧ (call.run s).1 ≠ .error .outsideBacking := by
  have h := run_outcome hi call
  unfold Post at h
  unfold after
  split at h
  · next hx => simpa [hx] using h
  · next e s' hx => simpa [hx] using h.2 hb

/-- The call does not make a reservation accessible : a private-copy `protect` that goes
through and grants anything finds backing in every mapping of its range. -/
def Call.SparesReservations (s : AddressSpace) : Call → Prop
  | .protect address size permissions true =>
    permissions = .none ∨ ∀ start limit flag, size.toNat ≠ 0 →
      pageRange address.toNat size.toNat = some (start, limit) →
      scanRange s.mappings permissions true limit (s.mappings.length + 1) start
        permissions.execute = .ok flag →
      ∀ m ∈ s.mappings, Overlaps start limit m → m.HasBacking
  | _ => True

theorem Effect.inv {call : Call} (hi : Inv s) (h : Effect s call s') : Inv s' := by
  cases h with
  | stores h =>
    obtain ⟨flag, s1, h1, rfl⟩ := h
    exact bumped_inv (h1.inv hi)
  | added h => exact h.inv hi
  | batchAdded h => exact h.inv hi
  | populated _ hs hf =>
    exact (hs.inv hi).set (hs.mappings_eq ▸ hf.index) (populated_sameShape _ _ _)
  | isProtected h => exact h.inv hi
  | deallocated h => exact h.inv hi
  | installed _ h => exact h.inv hi

/-- Every call keeps the representation invariant, in a backed space or not. -/
theorem after_inv (hi : Inv s) (call : Call) : Inv (s.after call) := by
  have h := run_outcome hi call
  unfold Post at h
  unfold after
  split at h
  · next hx => simpa [hx] using h.inv hi
  · next hx => simpa [hx] using h.1.inv hi

theorem Effect.backed {call : Call} (hi : Inv s) (hb : Backed s) (h : Effect s call s')
    (hcall : call.SparesReservations s) : Backed s' := by
  cases h with
  | stores h =>
    obtain ⟨flag, s1, h1, rfl⟩ := h
    exact h1.backed hb
  | added h => exact h.backed hb
  | batchAdded h => exact h.backed hb
  | populated _ hs hf =>
    exact (SameShape.set (hs.mappings_eq ▸ hf.index) (populated_sameShape _ _ _)).backed
      (hs.backed hb)
  | @isProtected _ _ permissions makePrivateCopy _ _ _ _ h =>
    refine h.backed hi hb fun hcopy => ?_
    subst hcopy
    rcases hcall with hnone | hall
    · exact .inl hnone
    · exact .inr (hall _ _ _ (Nat.ne_of_gt h.nonempty) h.range h.scan)
  | deallocated h => exact h.backed hi hb
  | installed _ h => exact h.backed hb

/-! ## Every sequence of calls -/

/-- Every call of a sequence meets a condition on the space it finds. -/
def Along (condition : AddressSpace → Call → Prop) : AddressSpace → List Call → Prop
  | _, [] => True
  | s, call :: calls => condition s call ∧ Along condition (s.after call) calls

/-- An invariant that every call keeps under its condition holds at the end. -/
theorem Along.induction {condition : AddressSpace → Call → Prop} {P : AddressSpace → Prop}
    (hstep : ∀ s call, P s → condition s call → P (s.after call)) :
    ∀ {calls : List Call} {s : AddressSpace}, P s → Along condition s calls →
      P (s.afterAll calls)
  | [], _, hs, _ => hs
  | call :: calls, s, hs, h =>
    show P ((s.after call).afterAll calls) from Along.induction hstep (hstep s call hs h.1) h.2

theorem Along.append {condition : AddressSpace → Call → Prop} :
    ∀ {before between : List Call} {s : AddressSpace}, Along condition s (before ++ between) →
      Along condition s before ∧ Along condition (s.afterAll before) between
  | [], _, _, h => ⟨trivial, h⟩
  | _ :: _, _, _, h => ⟨⟨h.1, h.2.append.1⟩, h.2.append.2⟩

/-- The spaces that calls lead to have the representation invariant. -/
theorem inv_afterAll : ∀ (calls : List Call) {s : AddressSpace}, Inv s → Inv (s.afterAll calls)
  | [], _, hi => hi
  | call :: calls, s, hi =>
    show Inv ((s.after call).afterAll calls) from inv_afterAll calls (after_inv hi call)

theorem reachable {calls : List Call}
    (h : Along (fun s call => call.SparesReservations s) {} calls) :
    Inv (afterAll {} calls) ∧ Backed (afterAll {} calls) := by
  refine Along.induction (P := fun s => Inv s ∧ Backed s) ?_ ⟨.initial, by simp [Backed]⟩ h
  rintro s call ⟨hi, hb⟩ hcall
  have he := (after_effect hi hb call).1
  exact ⟨he.inv hi, he.backed hi hb hcall⟩

/-- The representation of an address space : mappings in order, disjoint, aligned, below
the end of the address space and within their maximum permissions, and backing of the
right size for each that may be accessed. -/
structure WellFormed (s : AddressSpace) : Prop where
  sorted : Sorted s.mappings
  placed : ∀ m ∈ s.mappings, m.Placed
  backed : ∀ m ∈ s.mappings, m.permissions ≠ .none →
    (∃ f, m.fileBytes = some f ∧ m.fileDataOffset + m.size ≤ (s.files f).size) ∨
      m.bytes.size = m.size

theorem WellFormed.of_inv (hi : Inv s) (hb : Backed s) : WellFormed s where
  sorted := hi.sorted
  placed := hi.placed
  backed m hm hp := by
    have hmax := Permission.ne_none_of_has (hi.placed m hm).within hp
    rcases hb m hm hmax with h | h
    · obtain ⟨f, hf⟩ := Option.isSome_iff_exists.mp h
      exact .inl ⟨f, hf, ((hi.shaped m hm).file f hf).2⟩
    · exact .inr h

/-- In every sequence of calls that spares reservations the representation is well formed
after each call, and no further call of any kind indexes outside its backing. -/
theorem afterAll_wellFormed (calls : List Call)
    (h : Along (fun s call => call.SparesReservations s) {} calls) :
    WellFormed (afterAll {} calls) ∧
      ∀ call : Call, (call.run (afterAll {} calls)).1 ≠ .error .outsideBacking := by
  obtain ⟨hi, hb⟩ := reachable h
  exact ⟨.of_inv hi hb, fun call => (after_effect hi hb call).2⟩

/-- A private copy of memory that has backing. -/
def privateCopyCalls : List Call :=
  [.mapAnonymous 0x1000 0x2000 { read := true } { read := true, write := true } "heap" none,
   .protect 0x1000 0x1000 { read := true, execute := true } true]

theorem afterAll_wellFormed_privateCopy :
    Along (fun s call => call.SparesReservations s) {} privateCopyCalls ∧
      WellFormed (afterAll {} privateCopyCalls) := by
  have h : Along (fun s call => call.SparesReservations s) {} privateCopyCalls := by
    refine ⟨trivial, .inr fun start limit flag _ _ _ m hm _ => ?_, trivial⟩
    obtain rfl := List.mem_singleton.mp hm
    exact .inl rfl
  exact ⟨h, (afterAll_wellFormed _ h).1⟩

/-- A reservation that a private-copy `protect` makes readable. -/
def reservationCalls : List Call :=
  [.mapAnonymous 0x1000 0x1000 .none .none "reserved" none,
   .protect 0x1000 0x1000 { read := true } true]

theorem not_wellFormed_reservation :
    ¬WellFormed (afterAll {} reservationCalls) ∧
      ((Call.readWord 0x1000 1).run (afterAll {} reservationCalls)).1 = .error .outsideBacking := by
  refine ⟨fun h => ?_, rfl⟩
  rcases h.backed _ (List.mem_singleton_self _) (by decide) with ⟨f, hf, -⟩ | hb
  · cases hf
  · exact absurd hb (by decide)

end AddressSpace

end Rosa
