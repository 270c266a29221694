import Mathlib.Algebra.GroupWithZero.Nat
import NvmeVirt.Kv.Allocators

/-!
# The extents of the allocators

While there is room, the extents that an allocator hands out are in the device and disjoint: those of the
append-only allocator tile the device from its start (`Appended`), and those of the bitmap allocator are in
different places of the two halves (`InHalves`). Without room neither returns the -1 that `allocate_mem_offset`
tests for. So the runs that keep the law are those with room for every call (`allocators_lawful_iff`), and, for
the bitmap allocator, with bitmaps that the static arrays hold.
-/

namespace Nvmev

open CInt Function Outcome Spans

/-! ## Append-only -/

/-- The extents follow each other from 0 to `latest`. -/
structure Appended (devSize : Nat) (t : AppendOnly × List (Call AppendOnly)) : Prop where
  devSize_eq : t.1.devSize = devSize
  latest_le : t.1.latest ≤ devSize
  tiles : Tiles 0 (t.2.map Call.extent) t.1.latest
  room : ∀ c ∈ t.2, c.before.Room c.length

section AppendOnly

variable {devSize : Nat} {t : AppendOnly × List (Call AppendOnly)}

theorem Appended.lawful (h : Appended devSize t) : Lawful devSize AppendOnly.Room t.2 where
  inside c hc _ x hx := by
    have hlt := ((h.tiles.has_iff x).mp ⟨c.extent, List.mem_map_of_mem hc, hx⟩).2
    have := h.latest_le
    omega
  disjoint := (List.pairwise_map.mp h.tiles.pairwise).imp fun hcd _ _ => hcd
  refused c hc hroom := absurd (h.room c hc) hroom

theorem Appended.serve (hdev : devSize < 2 ^ 64) (h : Appended devSize t) {length : Nat}
    (hroom : t.1.Room length) : Total (appendOnlyOps.serve t length) fun t' => Appended devSize t' ∧
      t'.1.latest = t.1.latest + length := by
  have hle : t.1.latest + length ≤ devSize := h.devSize_eq ▸ hroom
  have hlatest : u64 (t.1.latest + length) = t.1.latest + length := u64_of_lt (by omega)
  refine .ret ⟨?_, hlatest⟩
  refine { devSize_eq := h.devSize_eq, latest_le := ?_, tiles := ?_, room := ?_ }
  · show u64 (t.1.latest + length) ≤ devSize
    rw [hlatest]
    exact hle
  · show Tiles 0 (List.map Call.extent (t.2 ++ [_])) (u64 (t.1.latest + length))
    rw [hlatest, List.map_append]
    exact h.tiles.append ⟨rfl, rfl⟩
  · intro c hc
    rcases List.mem_append.mp hc with hc | hc
    · exact h.room c hc
    · obtain rfl := List.mem_singleton.mp hc
      exact hroom

/-- Without room the extent goes past the end of the device. -/
theorem Appended.serve_full (hdev : devSize < noOffset) (h : Appended devSize t) {length : Nat}
    (hroom : ¬ t.1.Room length) :
    Partial (appendOnlyOps.serve t length) fun t' => ¬ Lawful devSize AppendOnly.Room t'.2 := by
  have hlt : devSize < t.1.latest + length := by
    rw [← h.devSize_eq]
    exact Nat.lt_of_not_le hroom
  have hle := h.latest_le
  refine .ret fun hlaw => ?_
  have hin := hlaw.inside _ (List.mem_append_right _ (List.mem_singleton_self _))
    (show t.1.latest ≠ noOffset by omega) devSize ⟨hle, hlt⟩
  omega

theorem always_room_iff (hdev : devSize < 2 ^ 64) (h : Appended devSize t) (lengths : List Nat) :
    Always appendOnlyOps.serve (fun t l => t.1.Room l) t lengths ↔
      t.1.latest + lengths.sum ≤ devSize := by
  induction lengths generalizing t with
  | nil =>
    have := h.latest_le
    simpa [Always] using this
  | cons l lengths ih =>
    rw [List.sum_cons]
    constructor
    · rintro ⟨hroom, hrest⟩
      obtain ⟨t', ht', hinv, hlatest⟩ := h.serve hdev hroom
      have := (ih hinv).mp (hrest t' ht')
      omega
    · intro hsum
      have hroom : t.1.Room l := by
        unfold AppendOnly.Room
        rw [h.devSize_eq]
        omega
      refine ⟨hroom, fun t' ht' => ?_⟩
      obtain ⟨s, hs, hinv, hlatest⟩ := h.serve hdev hroom
      obtain rfl : t' = s := Except.ok.inj (ht'.symm.trans hs)
      exact (ih hinv).mpr (by omega)

theorem appended_init (devSize : Nat) : Appended devSize (appendOnlyAllocatorInit devSize, []) where
  devSize_eq := rfl
  latest_le := Nat.zero_le _
  tiles := rfl
  room := by simp

theorem handsOut_appendOnly (hdev : devSize < 2 ^ 64) {lengths : List Nat} (hsum : lengths.sum ≤ devSize) :
    HandsOut appendOnlyOps AppendOnly.Room devSize lengths := by
  have hinit := appended_init devSize
  have hzero : (appendOnlyAllocatorInit devSize).latest = 0 := rfl
  refine lawful_of_always hinit (fun _ h => h.lawful) (fun t l h _ hroom => ?_)
    ((always_room_iff hdev hinit lengths).mpr (by simpa [hzero] using hsum))
  exact (h.serve hdev hroom).mono fun _ h => h.1

theorem handsOut_appendOnly_iff (hdev : devSize < noOffset) (lengths : List Nat) :
    HandsOut appendOnlyOps AppendOnly.Room devSize lengths ↔ lengths.sum ≤ devSize := by
  have hdev' : devSize < 2 ^ 64 := Nat.lt_of_lt_of_le hdev (by decide)
  have hinit := appended_init devSize
  have hiff : HandsOut appendOnlyOps AppendOnly.Room devSize lengths ↔ _ :=
    lawful_iff_always hinit (fun _ h => h.lawful)
      (fun _ _ h _ hroom => (h.serve hdev' hroom).mono fun _ h => h.1)
      (fun _ _ h _ hroom => h.serve_full hdev hroom)
  rw [hiff, always_room_iff hdev' hinit]
  simp [appendOnlyAllocatorInit]

end AppendOnly

/-! ## One size class -/

/-- The first `k` places are taken. -/
structure SizeClass.Taken (words : Nat) (c : SizeClass) (k : Nat) : Prop where
  set : ∀ i, c.bitmap i = true ↔ i < k
  lastPos : c.lastPos = k
  le : k ≤ c.nbits
  le_words : k ≤ 64 * words

/-- The next place is in the class, and its bit in the array. -/
def SizeClass.HasPlace (words : Nat) (c : SizeClass) : Prop := c.lastPos < c.nbits ∧ c.lastPos < 64 * words

section SizeClass

variable {find : FindNextZeroArea} {words k : Nat} {c : SizeClass}

theorem SizeClass.Taken.next_clear (h : c.Taken words k) : c.bitmap k = false := by
  have := h.set k
  simpa using this

/-- The search finds the next place. -/
theorem SizeClass.Taken.find_eq (hfind : FindsFirst find) (h : c.Taken words k) (hlt : k < c.nbits) :
    find c.bitmap c.nbits c.lastPos = k := by
  rw [h.lastPos]
  exact hfind.found (Nat.le_refl k) hlt h.next_clear fun j hj hjk => by omega

theorem SizeClass.Taken.take (hfind : FindsFirst find) (hwords : 64 * words ≤ 2 ^ 32) (h : c.Taken words k)
    (hplace : c.HasPlace words) :
    Total (c.take find words) fun r => r.1 = k ∧ r.2.Taken words (k + 1) ∧ r.2.nbits = c.nbits := by
  obtain ⟨hlt, hltw⟩ := hplace
  rw [h.lastPos] at hlt hltw
  have hu : u32 k = k := u32_of_lt (by omega)
  have hpos : u64 (k + 1) = k + 1 := u64_of_lt (by omega)
  unfold SizeClass.take bitmapSet
  dsimp only
  rw [h.find_eq hfind hlt, hu, hpos, ensure_of _ (by omega), ok_bind, ensure_of _ hltw, if_neg (by omega)]
  refine .ret ⟨rfl, { set := fun i => ?_, lastPos := rfl, le := hlt, le_words := hltw }, rfl⟩
  show update c.bitmap k true i = true ↔ i < k + 1
  by_cases hi : i = k
  · subst hi
    simp
  · rw [update_of_ne hi, h.set]
    omega

/-- A call that returns has set a bit in the array. -/
theorem SizeClass.take_word : Partial (c.take find words) fun r => u32 r.1 < 64 * words := by
  intro r hr
  obtain ⟨_, _, hr⟩ := bind_ok.mp hr
  obtain ⟨_, hset, hr⟩ := bind_ok.mp hr
  cases hr
  obtain ⟨_, hin, _⟩ := bind_ok.mp hset
  exact ensure_ok.mp hin

/-- Where the array ends before the class, the search runs out of the array. -/
theorem SizeClass.Taken.take_outside (hfind : FindsFirst find) (h : c.Taken words k) (hlt : k < c.nbits)
    (hk : 64 * words ≤ k) : Partial (c.take find words) fun _ => False := by
  intro r hr
  obtain ⟨_, hread, _⟩ := bind_ok.mp hr
  rw [h.find_eq hfind hlt] at hread
  have hin := ensure_ok.mp hread (h.lastPos ▸ hlt)
  omega

/-- So a class without a place either is full or stops the kernel. -/
theorem SizeClass.Taken.take_noPlace (hfind : FindsFirst find) (h : c.Taken words k)
    (hplace : ¬ c.HasPlace words) :
    Partial (c.take find words) fun r => (¬ ∃ i < c.nbits, c.bitmap i = false) ∧ u32 r.1 < 64 * words ∧
      c.nbits ≤ 64 * words := by
  have hlast := h.lastPos
  have hwords := h.le_words
  unfold SizeClass.HasPlace at hplace
  by_cases hlt : k < c.nbits
  · exact (h.take_outside hfind hlt (by omega)).mono fun _ h => h.elim
  · refine SizeClass.take_word.mono fun r hr => ⟨?_, hr, by omega⟩
    rintro ⟨i, hi, hclear⟩
    rw [(h.set i).mpr (by omega)] at hclear
    cases hclear

end SizeClass

/-! ## The two halves -/

/-- The extents are in the first `ns` places of the first half and the first `nl` places of the second half,
in different places. -/
structure InHalves (devSize : Nat) (t : BitmapAllocator × List (Call BitmapAllocator)) (ns nl : Nat) : Prop where
  devSize_eq : t.1.devSize = devSize
  small : t.1.small.Taken smallWords ns
  large : t.1.large.Taken largeWords nl
  smallNbits : t.1.small.nbits = devSize / 2 / smallLength
  largeNbits : t.1.large.nbits = devSize / 2 / largeLength
  place : ∀ c ∈ t.2, (∃ i < ns, c.extent.InPlace 0 smallLength i) ∨
    ∃ i < nl, c.extent.InPlace (devSize / 2) largeLength i
  disjoint : t.2.Pairwise fun c d => ∀ x, ¬ (c.extent.Has x ∧ d.extent.Has x)
  room : ∀ c ∈ t.2, c.before.Room c.length

section Bitmap

variable {find : FindNextZeroArea} {devSize ns nl : Nat} {t : BitmapAllocator × List (Call BitmapAllocator)}

/-- The places of the first half. -/
theorem smallPlace_lt {i x : Nat} {r : Span} (hr : r.InPlace 0 smallLength i)
    (hi : i < devSize / 2 / smallLength) (hx : r.Has x) : x < devSize / 2 := by
  have hlt := (hr.has_lt hi hx).2
  have := Nat.div_mul_le_self (devSize / 2) smallLength
  omega

/-- The places of the second half. -/
theorem largePlace_lt {i x : Nat} {r : Span} (hr : r.InPlace (devSize / 2) largeLength i)
    (hi : i < devSize / 2 / largeLength) (hx : r.Has x) : devSize / 2 ≤ x ∧ x < devSize := by
  obtain ⟨hle, hlt⟩ := hr.has_lt hi hx
  have := Nat.div_mul_le_self (devSize / 2) largeLength
  omega

theorem smallPlace_largePlace {i j : Nat} {r s : Span} (hr : r.InPlace 0 smallLength i)
    (hi : i < devSize / 2 / smallLength) (hs : s.InPlace (devSize / 2) largeLength j)
    (hj : j < devSize / 2 / largeLength) (x : Nat) : ¬ (r.Has x ∧ s.Has x) := by
  rintro ⟨hrx, hsx⟩
  have := smallPlace_lt hr hi hrx
  have := (largePlace_lt hs hj hsx).1
  omega

theorem smallOffset_eq {off : Nat} (hdev : devSize < 2 ^ 64) (hoff : off < devSize / 2 / smallLength) :
    u64 (off * smallLength) = off * smallLength := by
  unfold smallLength at hoff ⊢
  exact u64_of_lt (by omega)

theorem largeOffset_eq {off : Nat} (hdev : devSize < 2 ^ 64) (hoff : off < devSize / 2 / largeLength) :
    u64 (devSize / 2 + u64 (off * largeLength)) = devSize / 2 + off * largeLength := by
  unfold largeLength at hoff ⊢
  rw [u64_of_lt (n := off * 4096) (by omega), u64_of_lt (by omega)]

/-- No place of `SMALL_LENGTH` bytes is at -1, which is odd. -/
theorem smallOffset_ne (off : Nat) : u64 (off * smallLength) ≠ noOffset := by
  unfold u64 noOffset smallLength
  omega

/-- In a bitmap that the array holds, the second half is too short for -1. -/
theorem largeOffset_ne {off : Nat} (hdev : devSize < 2 ^ 64) (hword : u32 off < 64 * largeWords)
    (hbits : devSize / 2 / largeLength ≤ 64 * largeWords) :
    u64 (devSize / 2 + u64 (off * largeLength)) ≠ noOffset := by
  unfold u32 largeWords at hword
  unfold largeLength largeWords at hbits
  unfold u64 noOffset largeLength
  omega

theorem InHalves.small_lt (h : InHalves devSize t ns nl) {i : Nat} (hi : i < ns) :
    i < devSize / 2 / smallLength := h.smallNbits ▸ Nat.lt_of_lt_of_le hi h.small.le

theorem InHalves.large_lt (h : InHalves devSize t ns nl) {i : Nat} (hi : i < nl) :
    i < devSize / 2 / largeLength := h.largeNbits ▸ Nat.lt_of_lt_of_le hi h.large.le

theorem InHalves.lawful (h : InHalves devSize t ns nl) : Lawful devSize BitmapAllocator.Room t.2 where
  inside c hc _ x hx := by
    rcases h.place c hc with ⟨i, hi, hplace⟩ | ⟨i, hi, hplace⟩
    · have := smallPlace_lt hplace (h.small_lt hi) hx
      omega
    · exact (largePlace_lt hplace (h.large_lt hi) hx).2
  disjoint := h.disjoint.imp fun hcd _ _ => hcd
  refused c hc hroom := absurd (h.room c hc) hroom

/-- One more extent, apart from those before. -/
theorem InHalves.push (h : InHalves devSize t ns nl) {c : Call BitmapAllocator} {s : BitmapAllocator} {ns' nl' : Nat}
    (hdevSize : s.devSize = devSize) (hns : ns ≤ ns') (hnl : nl ≤ nl')
    (hsmall : s.small.Taken smallWords ns') (hlarge : s.large.Taken largeWords nl')
    (hsmallNbits : s.small.nbits = t.1.small.nbits) (hlargeNbits : s.large.nbits = t.1.large.nbits)
    (hplace : (∃ i < ns', c.extent.InPlace 0 smallLength i) ∨
      ∃ i < nl', c.extent.InPlace (devSize / 2) largeLength i)
    (hdisjoint : ∀ d ∈ t.2, ∀ x, ¬ (d.extent.Has x ∧ c.extent.Has x)) (hroom : c.before.Room c.length) :
    InHalves devSize (s, t.2 ++ [c]) ns' nl' where
  devSize_eq := hdevSize
  small := hsmall
  large := hlarge
  smallNbits := hsmallNbits.trans h.smallNbits
  largeNbits := hlargeNbits.trans h.largeNbits
  place := List.forall_mem_append.mpr ⟨fun d hd => (h.place d hd).imp
    (fun ⟨i, hi, hp⟩ => ⟨i, Nat.lt_of_lt_of_le hi hns, hp⟩)
    (fun ⟨i, hi, hp⟩ => ⟨i, Nat.lt_of_lt_of_le hi hnl, hp⟩), List.forall_mem_singleton.mpr hplace⟩
  disjoint := List.pairwise_append.mpr ⟨h.disjoint, List.pairwise_singleton _ _, fun d hd =>
    List.forall_mem_singleton.mpr (hdisjoint d hd)⟩
  room := List.forall_mem_append.mpr ⟨h.room, List.forall_mem_singleton.mpr hroom⟩

/-- The next place of the first half is apart from the extents so far. -/
theorem InHalves.apart_small (h : InHalves devSize t ns nl) {r : Span} (hr : r.InPlace 0 smallLength ns)
    (hns : ns < devSize / 2 / smallLength) :
    ∀ d ∈ t.2, ∀ x, ¬ (d.extent.Has x ∧ r.Has x) := by
  intro d hd x
  rcases h.place d hd with ⟨i, hi, hp⟩ | ⟨i, hi, hp⟩
  · exact hp.disjoint_of_lt hr hi
  · exact fun hx => smallPlace_largePlace hr hns hp (h.large_lt hi) x hx.symm

/-- The next place of the second half is apart from the extents so far. -/
theorem InHalves.apart_large (h : InHalves devSize t ns nl) {r : Span}
    (hr : r.InPlace (devSize / 2) largeLength nl) (hnl : nl < devSize / 2 / largeLength) :
    ∀ d ∈ t.2, ∀ x, ¬ (d.extent.Has x ∧ r.Has x) := by
  intro d hd x
  rcases h.place d hd with ⟨i, hi, hp⟩ | ⟨i, hi, hp⟩
  · exact smallPlace_largePlace hp (h.small_lt hi) hr hnl x
  · exact hp.disjoint_of_lt hr hi

theorem InHalves.serve_small (hfind : FindsFirst find) (hdev : devSize < 2 ^ 64) (h : InHalves devSize t ns nl)
    {length : Nat} (hlen : ¬ smallLength < length) (hplace : t.1.small.HasPlace smallWords) :
    Total ((bitmapOps find).serve t length) fun t' => InHalves devSize t' (ns + 1) nl := by
  obtain ⟨⟨off, small⟩, htake, hoff, htaken, hbits⟩ := h.small.take hfind (by decide) hplace
  obtain rfl : off = ns := hoff
  have hlt : off < t.1.small.nbits := h.small.lastPos ▸ hplace.1
  have hlt' : off < devSize / 2 / smallLength := h.smallNbits ▸ hlt
  have hcall : (bitmapOps find).allocate t.1 length = .ok (off * smallLength, { t.1 with small }) := by
    show bitmapAllocate find t.1 length = _
    unfold bitmapAllocate
    rw [if_neg hlen, htake, ok_bind]
    dsimp only
    rw [smallOffset_eq hdev hlt']
    rfl
  have hroom : t.1.Room length := by
    unfold BitmapAllocator.Room
    rw [if_neg hlen]
    exact ⟨off, hlt, h.small.next_clear⟩
  have hin : Span.InPlace 0 smallLength off { start := off * smallLength, len := length } :=
    ⟨(Nat.zero_add _).symm, Nat.le_of_not_lt hlen⟩
  exact ⟨_, AllocatorOps.serve_ok hcall,
    h.push h.devSize_eq (Nat.le_succ off) (Nat.le_refl nl) htaken h.large hbits rfl
      (.inl ⟨off, Nat.lt_succ_self off, hin⟩) (h.apart_small hin hlt') hroom⟩

theorem InHalves.serve_large (hfind : FindsFirst find) (hdev : devSize < 2 ^ 64) (h : InHalves devSize t ns nl)
    {length : Nat} (hlen : smallLength < length) (hmax : length ≤ largeLength)
    (hplace : t.1.large.HasPlace largeWords) :
    Total ((bitmapOps find).serve t length) fun t' => InHalves devSize t' ns (nl + 1) := by
  obtain ⟨⟨off, large⟩, htake, hoff, htaken, hbits⟩ := h.large.take hfind (by decide) hplace
  obtain rfl : off = nl := hoff
  have hlt : off < t.1.large.nbits := h.large.lastPos ▸ hplace.1
  have hlt' : off < devSize / 2 / largeLength := h.largeNbits ▸ hlt
  have hcall : (bitmapOps find).allocate t.1 length =
      .ok (devSize / 2 + off * largeLength, { t.1 with large }) := by
    show bitmapAllocate find t.1 length = _
    unfold bitmapAllocate
    rw [if_pos hlen, htake, ok_bind]
    dsimp only
    rw [h.devSize_eq, largeOffset_eq hdev hlt']
    rfl
  have hroom : t.1.Room length := by
    unfold BitmapAllocator.Room
    rw [if_pos hlen]
    exact ⟨off, hlt, h.large.next_clear⟩
  have hin : Span.InPlace (devSize / 2) largeLength off
      { start := devSize / 2 + off * largeLength, len := length } := ⟨rfl, hmax⟩
  exact ⟨_, AllocatorOps.serve_ok hcall,
    h.push h.devSize_eq (Nat.le_refl ns) (Nat.le_succ off) h.small htaken rfl hbits
      (.inr ⟨off, Nat.lt_succ_self off, hin⟩) (h.apart_large hin hlt') hroom⟩

/-- The class of `length` has a place. -/
def BitmapAllocator.HasPlace (s : BitmapAllocator) (length : Nat) : Prop :=
  if smallLength < length then s.large.HasPlace largeWords else s.small.HasPlace smallWords

theorem InHalves.serve_place (hfind : FindsFirst find) (hdev : devSize < 2 ^ 64) (h : InHalves devSize t ns nl)
    {length : Nat} (hmax : length ≤ largeLength) (hplace : t.1.HasPlace length) :
    Total ((bitmapOps find).serve t length) fun t' =>
      InHalves devSize t' (ns + if smallLength < length then 0 else 1)
        (nl + if smallLength < length then 1 else 0) := by
  unfold BitmapAllocator.HasPlace at hplace
  by_cases hclass : smallLength < length
  · rw [if_pos hclass] at hplace
    simp only [if_pos hclass]
    exact h.serve_large hfind hdev hclass hmax hplace
  · rw [if_neg hclass] at hplace
    simp only [if_neg hclass]
    exact h.serve_small hfind hdev hclass hplace

/-- Without a place the call returns what is not -1, or it stops the kernel. -/
theorem InHalves.serve_noPlace (hfind : FindsFirst find) (hdev : devSize < 2 ^ 64) (h : InHalves devSize t ns nl)
    {length : Nat} (hplace : ¬ t.1.HasPlace length) :
    Partial ((bitmapOps find).serve t length) fun t' => ¬ Lawful devSize BitmapAllocator.Room t'.2 := by
  intro t' ht' hlaw
  obtain ⟨⟨offset, s⟩, hcall, hret⟩ := bind_ok.mp ht'
  cases hret
  change bitmapAllocate find t.1 length = .ok (offset, s) at hcall
  have hrefused := hlaw.refused _ (List.mem_append_right _ (List.mem_singleton_self _))
  unfold BitmapAllocator.HasPlace at hplace
  unfold bitmapAllocate at hcall
  unfold BitmapAllocator.Room at hrefused
  dsimp only at hrefused
  by_cases hclass : smallLength < length
  · rw [if_pos hclass] at hplace hcall hrefused
    obtain ⟨⟨off, large⟩, htake, hret⟩ := bind_ok.mp hcall
    cases hret
    obtain ⟨hset, hword, hbits⟩ := h.large.take_noPlace hfind hplace _ htake
    have hno := hrefused hset
    rw [h.largeNbits] at hbits
    rw [h.devSize_eq] at hno
    exact largeOffset_ne hdev hword hbits hno
  · rw [if_neg hclass] at hplace hcall hrefused
    obtain ⟨⟨off, small⟩, htake, hret⟩ := bind_ok.mp hcall
    cases hret
    obtain ⟨hset, -⟩ := h.small.take_noPlace hfind hplace _ htake
    exact smallOffset_ne off (hrefused hset)

/-- The calls of lengths up to `SMALL_LENGTH`, and the longer ones. -/
def smallCount (lengths : List Nat) : Nat := lengths.countP (· ≤ smallLength)

def largeCount (lengths : List Nat) : Nat := lengths.countP (smallLength < ·)

theorem smallCount_cons (l : Nat) (lengths : List Nat) :
    smallCount (l :: lengths) = smallCount lengths + if smallLength < l then 0 else 1 := by
  unfold smallCount
  rw [List.countP_cons]
  by_cases h : smallLength < l <;> simp [h, Nat.not_le.mpr, Nat.le_of_not_lt]

theorem largeCount_cons (l : Nat) (lengths : List Nat) :
    largeCount (l :: lengths) = largeCount lengths + if smallLength < l then 1 else 0 := by
  unfold largeCount
  rw [List.countP_cons]
  simp only [decide_eq_true_eq]

/-- The places of a class whose bits are in the array. -/
def places (words nbits : Nat) : Nat := min nbits (64 * words)

theorem SizeClass.Taken.hasPlace_iff {words k : Nat} {c : SizeClass} (h : c.Taken words k) :
    c.HasPlace words ↔ k < places words c.nbits := by
  unfold SizeClass.HasPlace places
  rw [h.lastPos, Nat.lt_min]

theorem SizeClass.Taken.le_places {words k : Nat} {c : SizeClass} (h : c.Taken words k) :
    k ≤ places words c.nbits := Nat.le_min.mpr ⟨h.le, h.le_words⟩

/-- The class of the next call has a place when the places are enough with it. -/
theorem InHalves.hasPlace_iff (h : InHalves devSize t ns nl) (length : Nat) : t.1.HasPlace length ↔
    (ns + if smallLength < length then 0 else 1) ≤ places smallWords (devSize / 2 / smallLength) ∧
      (nl + if smallLength < length then 1 else 0) ≤ places largeWords (devSize / 2 / largeLength) := by
  have hs := h.small.le_places
  have hl := h.large.le_places
  unfold BitmapAllocator.HasPlace
  rw [← h.smallNbits, ← h.largeNbits, h.small.hasPlace_iff, h.large.hasPlace_iff]
  by_cases hclass : smallLength < length
  · simp only [if_pos hclass]
    omega
  · simp only [if_neg hclass]
    omega

theorem InHalves.always_iff (hfind : FindsFirst find) (hdev : devSize < 2 ^ 64) (h : InHalves devSize t ns nl)
    {lengths : List Nat} (hmax : ∀ l ∈ lengths, l ≤ largeLength) :
    Always (bitmapOps find).serve (fun t l => t.1.HasPlace l) t lengths ↔
      ns + smallCount lengths ≤ places smallWords (devSize / 2 / smallLength) ∧
      nl + largeCount lengths ≤ places largeWords (devSize / 2 / largeLength) := by
  induction lengths generalizing t ns nl with
  | nil =>
    have hs := h.small.le_places
    have hl := h.large.le_places
    rw [h.smallNbits] at hs
    rw [h.largeNbits] at hl
    simpa [Always, smallCount, largeCount] using ⟨hs, hl⟩
  | cons l lengths ih =>
    have hiff := h.hasPlace_iff l
    rw [smallCount_cons, largeCount_cons]
    constructor
    · rintro ⟨hplace, hrest⟩
      obtain ⟨t', ht', h'⟩ := h.serve_place hfind hdev (hmax l List.mem_cons_self) hplace
      have hle := (ih h' fun l hl => hmax l (List.mem_cons_of_mem _ hl)).mp (hrest t' ht')
      omega
    · intro hle
      have hplace : t.1.HasPlace l := hiff.mpr ⟨by omega, by omega⟩
      refine ⟨hplace, fun s hs => ?_⟩
      obtain ⟨t', ht', h'⟩ := h.serve_place hfind hdev (hmax l List.mem_cons_self) hplace
      obtain rfl : t' = s := Except.ok.inj (ht'.symm.trans hs)
      exact (ih h' fun l hl => hmax l (List.mem_cons_of_mem _ hl)).mpr (by omega)

/-- The bitmaps that `bitmap_zero` clears are in the static arrays. -/
structure ZeroFits (devSize : Nat) : Prop where
  small : u32 (devSize / 2 / smallLength) ≤ 64 * smallWords
  large : u32 (devSize / 2 / largeLength) ≤ 64 * largeWords

/-- On a device of less than 8 TiB: those of the first half are in an array of 38400000 bits. -/
theorem zeroFits_iff (hdev : devSize < 2 ^ 43) : ZeroFits devSize ↔ devSize / 2 / smallLength ≤ 38400000 := by
  have hsmall : u32 (devSize / 2 / smallLength) = devSize / 2 / smallLength := by
    unfold smallLength
    exact u32_of_lt (by omega)
  have hlarge : u32 (devSize / 2 / largeLength) = devSize / 2 / largeLength := by
    unfold largeLength
    exact u32_of_lt (by omega)
  constructor
  · intro h
    exact hsmall ▸ h.small
  · intro h
    refine ⟨by rw [hsmall]; exact h, ?_⟩
    rw [hlarge]
    unfold largeLength largeWords
    unfold smallLength at h
    omega

theorem inHalves_init (h : ZeroFits devSize) :
    Total (bitmapAllocatorInit devSize) fun s => InHalves devSize (s, []) 0 0 := by
  have htaken : ∀ words nbits : Nat, SizeClass.Taken words
      { nbits, bitmap := fun i => if i < divRoundUp (u32 nbits) 64 * 64 then false else false, lastPos := 0 } 0 :=
    fun words nbits => { set := by simp, lastPos := rfl, le := Nat.zero_le _, le_words := Nat.zero_le _ }
  unfold bitmapAllocatorInit bitmapZero
  dsimp only
  rw [ensure_of _ h.small, ok_bind, ensure_of _ h.large]
  exact .ret {
    devSize_eq := rfl, small := htaken _ _, large := htaken _ _, smallNbits := rfl, largeNbits := rfl
    place := by simp, disjoint := .nil, room := by simp }

theorem bitmapAllocatorInit_ok {s : BitmapAllocator} (h : bitmapAllocatorInit devSize = .ok s) :
    ZeroFits devSize := by
  obtain ⟨_, hsmall, h⟩ := bind_ok.mp h
  obtain ⟨_, hlarge, _⟩ := bind_ok.mp h
  obtain ⟨_, hs, _⟩ := bind_ok.mp hsmall
  obtain ⟨_, hl, _⟩ := bind_ok.mp hlarge
  exact ⟨ensure_ok.mp hs, ensure_ok.mp hl⟩

/-- The bitmap allocator has room for calls of these lengths. -/
structure BitmapFits (devSize : Nat) (lengths : List Nat) : Prop where
  zero : ZeroFits devSize
  small : smallCount lengths ≤ places smallWords (devSize / 2 / smallLength)
  large : largeCount lengths ≤ places largeWords (devSize / 2 / largeLength)

theorem handsOut_bitmap_iff (hfind : FindsFirst find) (hdev : devSize < 2 ^ 64) {lengths : List Nat}
    (hmax : ∀ l ∈ lengths, l ≤ largeLength) :
    HandsOut (bitmapOps find) BitmapAllocator.Room devSize lengths ↔ BitmapFits devSize lengths := by
  have hiff : ∀ s, InHalves devSize (s, []) 0 0 →
      ((Total (lengths.foldlM (bitmapOps find).serve (s, [])) fun t =>
        Lawful devSize BitmapAllocator.Room t.2) ↔
      smallCount lengths ≤ places smallWords (devSize / 2 / smallLength) ∧
      largeCount lengths ≤ places largeWords (devSize / 2 / largeLength)) := by
    intro s hinit
    rw [lawful_iff_always (I := fun t => ∃ ns nl, InHalves devSize t ns nl) ⟨0, 0, hinit⟩ ?_ ?_ ?_,
      hinit.always_iff hfind hdev hmax, Nat.zero_add, Nat.zero_add]
    · rintro t ⟨ns, nl, h⟩
      exact h.lawful
    · rintro t l ⟨ns, nl, h⟩ hl hplace
      exact (h.serve_place hfind hdev (hmax l hl) hplace).mono fun _ h' => ⟨_, _, h'⟩
    · rintro t l ⟨ns, nl, h⟩ hl hplace
      exact h.serve_noPlace hfind hdev hplace
  constructor
  · rintro ⟨t, hrun, hlaw⟩
    obtain ⟨s, hs, hrun⟩ := bind_ok.mp hrun
    have hzero := bitmapAllocatorInit_ok hs
    obtain ⟨s', hs', hinit⟩ := inHalves_init hzero
    obtain rfl : s = s' := Except.ok.inj (hs.symm.trans hs')
    obtain ⟨hsmall, hlarge⟩ := (hiff s hinit).mp ⟨t, hrun, hlaw⟩
    exact ⟨hzero, hsmall, hlarge⟩
  · intro h
    obtain ⟨s, hs, hinit⟩ := inHalves_init h.zero
    show Total (bitmapAllocatorInit devSize >>= _) _
    rw [hs]
    exact (hiff s hinit).mpr ⟨h.small, h.large⟩

end Bitmap

/-- Either allocator, on a device of any size and with any calls of lengths up to `LARGE_LENGTH`. The append-only
allocator keeps the law when the lengths are together no longer than the device, and only then (a device of
`2 ^ 64 - 1` bytes apart, at whose end `latest` is the -1). The bitmap allocator does exactly when the static
arrays hold the bitmaps and each class has a place for each of its calls. -/
theorem allocators_lawful_iff {devSize : Nat} (hdev : devSize < 2 ^ 64) {lengths : List Nat}
    (hmax : ∀ l ∈ lengths, l ≤ largeLength) :
    (lengths.sum ≤ devSize → HandsOut appendOnlyOps AppendOnly.Room devSize lengths) ∧
    (devSize < noOffset →
      (HandsOut appendOnlyOps AppendOnly.Room devSize lengths ↔ lengths.sum ≤ devSize)) ∧
    ∀ find : FindNextZeroArea, FindsFirst find →
      (HandsOut (bitmapOps find) BitmapAllocator.Room devSize lengths ↔ BitmapFits devSize lengths) :=
  ⟨handsOut_appendOnly hdev, fun hlt => handsOut_appendOnly_iff hlt lengths,
    fun _ hfind => handsOut_bitmap_iff hfind hdev hmax⟩

/-- Two small values and a large one on a device of 16 KiB. -/
theorem allocators_lawful_iff_three :
    HandsOut appendOnlyOps AppendOnly.Room 16384 [100, 1024, 4096] ∧
      HandsOut (bitmapOps findNextZeroArea) BitmapAllocator.Room 16384 [100, 1024, 4096] := by
  have h := allocators_lawful_iff (show 16384 < 2 ^ 64 by decide)
    (show ∀ l ∈ [100, 1024, 4096], l ≤ largeLength by decide)
  refine ⟨h.1 (by decide), (h.2.2 _ findsFirst_findNextZeroArea).mpr ?_⟩
  exact ⟨⟨by decide, by decide⟩, by decide, by decide⟩

/-- The second value of a device with room for one is handed the memory behind the device. The bitmap allocator
hands the third value the same memory again. -/
theorem full_allocators_hand_out :
    ((appendOnlyOps.run 4096 [4096, 4096]).map fun t => t.2.map (·.offset)) = .ok [0, 4096] ∧
      (((bitmapOps findNextZeroArea).run 2048 [1024, 1024, 1024]).map fun t => t.2.map (·.offset)) =
        .ok [0, 2048, 2048] ∧
      ¬ HandsOut appendOnlyOps AppendOnly.Room 4096 [4096, 4096] ∧
      ¬ HandsOut (bitmapOps findNextZeroArea) BitmapAllocator.Room 2048 [1024, 1024, 1024] := by
  refine ⟨rfl, by decide, fun h => ?_, fun h => ?_⟩
  · exact absurd ((handsOut_appendOnly_iff (by decide) _).mp h) (by decide)
  · have hfits := (handsOut_bitmap_iff findsFirst_findNextZeroArea (by decide) (by decide)).mp h
    exact absurd hfits.small (by decide)

end Nvmev
