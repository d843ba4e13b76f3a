import Rosa.Guest.WrittenBytes

/-!
# Bytes that can be read

A read returns exactly if every byte of its range can be read : the byte is in a mapping with
read permission, is there if the mapping is sparse, and is not on a page whose callback throws
(`readInto_returns_iff`). A read that returns gives the bytes that memory shows.
-/

namespace Rosa

namespace AddressSpace

open Rosa.Computation

variable {s s' : AddressSpace} {m : Mapping}

/-- Pages that were made ready did not throw. -/
theorem materializePages_seen {file : FileId} {t : TransformId} (hfile : m.fileBytes = some file)
    (ht : m.lazyFileTransform = some t) : ∀ (count page : Nat) {s : AddressSpace}, Orderly s →
      m ∈ s.mappings →
      (∀ p, page ≤ p → p < page + count → ∃ o < m.size, (s.transforms t).pageOf m o = p) →
      Post (materializePages file t count page) s
        (fun _ s' => Calm s s' ∧ ∀ o < m.size, page ≤ (s.transforms t).pageOf m o →
          (s.transforms t).pageOf m o < page + count → s.pageFails m o = false)
        fun _ _ => True
  | 0, page, s, _, _, _ => Post.pure ⟨.refl s, fun o _ h1 h2 => absurd h2 (by omega)⟩
  | count + 1, page, s, hr, hm, hpages => by
    have hrest {s1 : AddressSpace} (hs : Calm s s1)
        (hpage : ∀ o < m.size, (s.transforms t).pageOf m o = page → s.pageFails m o = false) :
        Post (materializePages file t count (page + 1)) s1
          (fun _ s' => Calm s s' ∧ ∀ o < m.size, page ≤ (s.transforms t).pageOf m o →
            (s.transforms t).pageOf m o < page + (count + 1) → s.pageFails m o = false)
          fun _ _ => True := by
      obtain ⟨e1, -, e3, -⟩ := hs.touches.sameShape.transforms t
      have hsame (o : Nat) : (s1.transforms t).pageOf m o = (s.transforms t).pageOf m o := by
        rw [LazyFilePageTransform.pageOf, e1, e3, LazyFilePageTransform.pageOf]
      refine Post.mono (materializePages_seen hfile ht count (page + 1) (hs.orderly hr)
        (hs.touches.mappings_eq ▸ hm) ?_) ?_ fun _ _ h => h
      · intro p h1 h2
        obtain ⟨o, ho, hpo⟩ := hpages p (by omega) (by omega)
        exact ⟨o, ho, (hsame o).trans hpo⟩
      · rintro _ s' ⟨hcalm, hseen⟩
        refine ⟨hs.trans hcalm, fun o ho h1 h2 => ?_⟩
        rcases Nat.eq_or_lt_of_le h1 with h | h
        · exact hpage o ho h.symm
        · have hlater := hseen o ho (by rw [hsame]; omega) (by rw [hsame]; omega)
          have := ((hs.sameMemory hr).bytes m hm o ho).1
          rw [pageFails_settled, pageFails_settled] at this
          rw [← this, hlater]
    obtain ⟨o, ho, rfl⟩ := hpages page (le_refl _) (by omega)
    have hfails {o' : Nat} (h : (s.transforms t).pageOf m o' = (s.transforms t).pageOf m o)
        (hdone : (s.transforms t).transformedPages ((s.transforms t).pageOf m o) = true ∨
          (transformPage (s.transforms t) (s.files file).data
            ((s.transforms t).pageOf m o)).2 = none) : s.pageFails m o' = false := by
      rw [← h, pageOf_eq_filePage] at hdone
      simp only [pageFails, hfile, ht, fails]
      rcases hdone with hdone | hdone
      · simp [hdone]
      · simp [hdone]
    rw [materializePages]
    refine Post.bind (Post.get ?_)
    dsimp only
    split
    · next hdone => exact hrest (.refl s) fun o' _ h => hfails h (.inl hdone)
    · next hnew =>
      have hnew' := Bool.eq_false_iff.mpr hnew
      refine Post.bind (Post.raiseIf (fun _ => trivial) fun _ => Post.bind (Post.modify ?_))
      cases hok : (transformPage (s.transforms t) (s.files file).data
          ((s.transforms t).pageOf m o)).2 with
      | some message => exact trivial
      | none =>
        have hsettled := applyTransform_settled hok
        refine hrest ⟨.single (.transform hm hfile ht ho hnew'), ?_⟩ fun o' _ h => hfails h (.inr hok)
        have htouch : Touch nowhere s.settled (applyTransform file t
            ((s.settled.transforms t).pageOf m o) s.settled) := .transform hm hfile ht ho hnew'
        rw [show (s.settled.transforms t).pageOf m o = (s.transforms t).pageOf m o from rfl,
          hsettled] at htouch
        exact .single htouch

theorem materializeFileBytes_seen (hr : Orderly s) (hm : m ∈ s.mappings) {offset size : Nat}
    (hfits : offset + size ≤ m.size) :
    Post (materializeFileBytes m offset size) s
      (fun _ s' => Calm s s' ∧ ∀ k < size, s.pageFails m (offset + k) = false)
      fun _ _ => True := by
  unfold materializeFileBytes
  split
  · next file t hfile ht =>
    obtain ⟨-, hps, hlow, hhigh, -⟩ := (hr.inv.shaped m hm).lazyTransform t ht
    unfold materialize
    refine Post.bind (Post.get ?_)
    dsimp only
    split
    · exact Post.pure ⟨.refl s, fun k hk => absurd hk (by omega)⟩
    · refine Post.bind (Post.raiseIf (fun _ => trivial) fun _ => ?_)
      refine Post.mono (materializePages_seen hfile ht _ _ hr hm fun p h1 h2 => ?_) ?_ fun _ _ h => h
      · obtain ⟨o, ho1, ho2, hp⟩ := exists_offset_on_page hps hlow (by omega) h1 h2
        exact ⟨o, by omega, hp⟩
      · rintro _ s' ⟨hcalm, hseen⟩
        refine ⟨hcalm, fun k hk => hseen _ (by omega) (Nat.div_le_div_right (by omega)) ?_⟩
        have hle : (m.fileDataOffset + (offset + k) - (s.transforms t).dataOffset) /
            (s.transforms t).pageSize ≤
            (m.fileDataOffset + offset - (s.transforms t).dataOffset + size - 1) /
              (s.transforms t).pageSize := Nat.div_le_div_right (by omega)
        have hfirst : (m.fileDataOffset + offset - (s.transforms t).dataOffset) /
            (s.transforms t).pageSize ≤
            (m.fileDataOffset + offset - (s.transforms t).dataOffset + size - 1) /
              (s.transforms t).pageSize := Nat.div_le_div_right (by omega)
        rw [LazyFilePageTransform.pageOf]
        omega
  · next hnone =>
    refine Post.pure ⟨.refl s, fun k _ => ?_⟩
    unfold pageFails
    split
    · next f t hf ht => exact absurd ht (hnone f t hf)
    · rfl

theorem loadChunk_seen (hr : Orderly s) (hm : m ∈ s.mappings) {offset size : Nat}
    (hfits : offset + size ≤ m.size) :
    Post (loadChunk m offset size) s
      (fun _ s' => Calm s s' ∧ ∀ k < size, s.pageFails m (offset + k) = false)
      fun _ _ => True := by
  unfold loadChunk
  split
  · refine Post.bind (Post.mono (materializeFileBytes_seen hr hm hfits) ?_ fun _ _ h => h)
    intro _ s' hseen
    exact Post.bind (Post.get (Post.bind (Post.raiseIf (fun _ => trivial) fun _ => Post.pure hseen)))
  · next hfile =>
    refine Post.bind (Post.raiseIf (fun _ => trivial) fun _ => Post.pure ⟨.refl s, fun k _ => ?_⟩)
    simp [pageFails, hfile]

theorem checkReadable_seen (m : Mapping) (offset size : Nat) :
    Post (checkReadable m offset size) s
      (fun _ s' => s' = s ∧ (m.readableBytes.size = 0 ∨
        ∀ k < size, m.readableBytes.get (offset + k) = true))
      fun _ _ => True := by
  unfold checkReadable
  split
  · next hzero => exact Post.pure ⟨rfl, .inl hzero⟩
  · refine Post.bind (Post.raiseIf (fun _ => trivial) fun _ =>
      Post.raiseIf (fun _ => trivial) fun hall => ⟨rfl, .inr fun k hk => ?_⟩)
    by_contra hbad
    have := List.any_eq_false.mp hall k (List.mem_range.mpr hk)
    simp [hbad] at this

/-- A read that returns has read every byte from a readable mapping and met no throwing page. -/
theorem readFrom_seen : ∀ (fuel cursor remaining : Nat) {s : AddressSpace}, Orderly s →
    remaining ≤ fuel → Post (readFrom fuel cursor remaining) s
      (fun _ _ => NoneFails s cursor remaining ∧ ∀ k < remaining, s.ReadableAt (cursor + k))
      fun _ _ => True
  | 0, cursor, remaining, s, _, hfuel => by
    obtain rfl := Nat.le_zero.mp hfuel
    exact Post.pure ⟨fun m _ o _ h1 h2 => absurd h2 (by omega), fun k hk => absurd hk (by omega)⟩
  | fuel + 1, cursor, remaining, s, hr, hfuel => by
    rw [readFrom]
    split
    · next hzero =>
      subst hzero
      exact Post.pure ⟨fun m _ o _ h1 h2 => absurd h2 (by omega), fun k hk => absurd hk (by omega)⟩
    · refine Post.bind (Post.mono (Post.with_run (find_spec hr.inv Nat.one_pos _)) ?_
        fun _ _ _ => trivial)
      rintro ⟨i, m⟩ s1 ⟨-, hfind⟩
      obtain ⟨hcalm, hf⟩ := found_of_find hr.inv hfind
      have hindex : s.mappings[i]? = some m := hf.index
      dsimp only at hf ⊢
      generalize hchunk : min remaining (m.size - (cursor - m.base)) = chunk
      obtain ⟨hbase, hfits, hle, hpos, hnext⟩ := hf.chunk hr.inv hchunk
      have hr1 := hcalm.orderly hr
      have hm1 : m ∈ s1.mappings := hcalm.touches.mappings_eq ▸ hf.mem
      refine Post.bind (Post.mono (checkReadable_seen m _ _) ?_ fun _ _ h => h)
      rintro _ _ ⟨rfl, hthere⟩
      refine Post.bind (Post.mono (loadChunk_seen hr1 hm1 hfits) ?_ fun _ _ h => h)
      rintro _ s2 ⟨hcalm2, hpages⟩
      rw [Nat.mod_eq_of_lt hnext]
      refine Post.bind (Post.mono (readFrom_seen fuel (cursor + chunk) (remaining - chunk)
        (hcalm2.orderly hr1) (by omega)) ?_ fun _ _ h => h)
      rintro _ _ ⟨hno, hreadable⟩
      have hboth := hcalm.trans hcalm2
      have hsame := hboth.sameMemory hr
      refine Post.pure ⟨fun a ha o ho h1 h2 => ?_, fun k hk => ?_⟩
      · by_cases hlow : a.base + o < cursor + chunk
        · -- the byte is in the mapping at the cursor
          obtain ⟨j, hj⟩ := List.getElem?_of_mem ha
          have hji := hr.inv.sorted.unique hj hindex (by omega) (by omega)
          obtain rfl : a = m := by simpa [hji, hindex] using hj.symm
          have := hpages (a.base + o - cursor) (by omega)
          rw [show cursor - a.base + (a.base + o - cursor) = o by omega] at this
          have hfirst := ((hcalm.sameMemory hr).bytes a ha o ho).1
          rw [pageFails_settled, pageFails_settled] at hfirst
          rw [← hfirst, this]
        · have := hno a (by rw [hsame.mappings]; exact ha) o ho (by omega) (by omega)
          have hfirst := (hsame.bytes a ha o ho).1
          rw [pageFails_settled, pageFails_settled] at hfirst
          rw [← hfirst, this]
      · by_cases hlow : k < chunk
        · refine ⟨i, m, ⟨hf.index, by omega, by omega, hf.permitted⟩, ?_⟩
          rw [show cursor + k - m.base = cursor - m.base + k by omega]
          exact hthere.imp_right fun h => h k hlow
        · have := hreadable (k - chunk) (by omega)
          rw [show cursor + chunk + (k - chunk) = cursor + k by omega] at this
          exact this.of_mappings hboth.touches.mappings_eq.symm

/-- A byte can be read. -/
def CanRead (s : AddressSpace) (address : Nat) : Prop :=
  s.ReadableAt address ∧ NoneFails s address 1

theorem noneFails_iff {address size : Nat} :
    NoneFails s address size ↔ ∀ k < size, NoneFails s (address + k) 1 := by
  constructor
  · intro h k hk m hm o ho h1 h2
    exact h m hm o ho (by omega) (by omega)
  · intro h m hm o ho h1 h2
    exact h (m.base + o - address) (by omega) m hm o ho (by omega) (by omega)

/-- A read returns exactly if all its bytes can be read. -/
theorem readInto_returns_iff (hr : Regular s) (address size : Nat) :
    (∃ bytes, (readInto address size s).1 = .ok bytes) ↔ ∀ k < size, s.CanRead (address + k) := by
  constructor
  · rintro ⟨bytes, hok⟩
    obtain ⟨hno, hreadable⟩ := Post.of_ok (readFrom_seen size address size hr le_rfl)
      (Prod.ext hok rfl : readFrom size address size s = (.ok bytes, (readInto address size s).2))
    exact fun k hk => ⟨hreadable k hk, noneFails_iff.mp hno k hk⟩
  · intro h
    have hreturns := readFrom_returns size address size hr (noneFails_iff.mpr fun k hk => (h k hk).2)
      (fun k hk => (h k hk).1) fun k hk => hr.backedAt (h k hk).1
    unfold Post at hreturns
    rcases hrun : readInto address size s with ⟨_ | bytes, s'⟩
    · rw [readInto] at hrun
      rw [hrun] at hreturns
      exact hreturns.elim
    · exact ⟨bytes, rfl⟩

/-- A read that returns gives the bytes that memory shows. -/
theorem readInto_bytes (hr : Regular s) {address size : Nat} {bytes : List Byte}
    {memory : Nat → Byte} (hd : Depicts memory s.settled)
    (h : (readInto address size s).1 = .ok bytes) : bytes = bytesAt memory address size := by
  have hno := noneFails_iff.mpr fun k hk => ((readInto_returns_iff hr address size).mp ⟨_, h⟩ k hk).2
  have hsettled := readFrom_settles size address size hr hno
  have hok : readFrom size address size s.settled =
      (.ok bytes, (readInto address size s).2.settled) := by
    rw [hsettled]
    exact Prod.ext h rfl
  exact (Post.of_ok (readFrom_depicts size address size hr.inv.settled hr.lazyInv hd le_rfl) hok).2

end AddressSpace

end Rosa
