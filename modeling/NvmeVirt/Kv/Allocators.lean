import NvmeVirt.Kv.Ftl
import NvmeVirt.Lib.Spans

/-!
# The allocators of value memory

`struct allocator_ops` with its two implementations. The append-only allocator (`append_only.c`) goes on from
the end of the last extent. The bitmap allocator (`bitmap.c`) has places of `SMALL_LENGTH` bytes in the first
half of the device and of `LARGE_LENGTH` bytes in the second half, with a bitmap for each half in a static
array. Neither of them tests whether there is memory left.

The kernel's `bitmap_find_next_zero_area` is a parameter; `FindsFirst` is what the code relies on.
-/

namespace Nvmev

open CInt Function Outcome Spans

/-- `LARGE_LENGTH`. -/
def largeLength : Nat := 4096

/-- `struct allocator_ops`: `init(size)` and `allocate(length, NULL)`, over the static variables `σ`. -/
structure AllocatorOps (σ : Type) where
  init : Nat → Except Bug σ
  allocate : σ → Nat → Except Bug (Nat × σ)

/-! ## Append-only -/

/-- The static variables of `append_only.c`, without the one that is only counted up. -/
structure AppendOnly where
  latest : Nat
  devSize : Nat

/-- `append_only_allocator_init`. -/
def appendOnlyAllocatorInit (size : Nat) : AppendOnly := { latest := 0, devSize := size }

/-- `append_only_allocate`. Near the end of the device it only writes to the log. -/
def appendOnlyAllocate (s : AppendOnly) (length : Nat) : Nat × AppendOnly :=
  (s.latest, { s with latest := u64 (s.latest + length) })

/-- `append_only_ops`. -/
def appendOnlyOps : AllocatorOps AppendOnly where
  init size := .ok (appendOnlyAllocatorInit size)
  allocate s length := .ok (appendOnlyAllocate s length)

/-! ## Bitmap -/

/-- The `unsigned long`s of `small_bitmap` and `large_bitmap`. -/
def smallWords : Nat := 600000

def largeWords : Nat := 300000

/-- One of the two size classes: `nbits`, the bitmap and `last_pos`. -/
structure SizeClass where
  nbits : Nat
  bitmap : Nat → Bool
  lastPos : Nat

/-- The static variables of `bitmap.c`, without the counters that only the log reads. -/
structure BitmapAllocator where
  devSize : Nat
  small : SizeClass
  large : SizeClass

/-- `bitmap_zero(bitmap, nbits)` on an array of `words`. The number of bits is an `unsigned int`, and the words
that hold them are cleared. -/
def bitmapZero (words nbits : Nat) (bitmap : Nat → Bool) : Except Bug (Nat → Bool) := do
  ensure (u32 nbits ≤ 64 * words) (.outOfBounds .bitmapAllocatorInit)
  pure fun i => if i < divRoundUp (u32 nbits) 64 * 64 then false else bitmap i

/-- `bitmap_set(bitmap, start, 1)` on an array of `words`. The number of the bit is an `unsigned int`. -/
def bitmapSet (words : Nat) (bitmap : Nat → Bool) (start : Nat) : Except Bug (Nat → Bool) := do
  ensure (u32 start < 64 * words) (.outOfBounds .bitmapAllocate)
  pure (update bitmap (u32 start) true)

/-- `bitmap_allocator_init`. The static variables are 0 before. -/
def bitmapAllocatorInit (size : Nat) : Except Bug BitmapAllocator := do
  let smallNbits := size / 2 / smallLength
  let largeNbits := size / 2 / largeLength
  let smallBitmap ← bitmapZero smallWords smallNbits fun _ => false
  let largeBitmap ← bitmapZero largeWords largeNbits fun _ => false
  pure {
    devSize := size
    small := { nbits := smallNbits, bitmap := smallBitmap, lastPos := 0 }
    large := { nbits := largeNbits, bitmap := largeBitmap, lastPos := 0 } }

/-- The search for one clear bit, `bitmap_find_next_zero_area(bitmap, size, start, 1, 0)`. -/
abbrev FindNextZeroArea : Type := (Nat → Bool) → Nat → Nat → Nat

/-- It returns the first clear bit from `start` on, or a value above `size`. The sizes are `long`s, the result
an `unsigned long`. -/
structure FindsFirst (find : FindNextZeroArea) : Prop where
  found : ∀ {bitmap size start i}, start ≤ i → i < size → bitmap i = false →
    (∀ j, start ≤ j → j < i → bitmap j = true) → find bitmap size start = i
  full : ∀ {bitmap size start}, size < 2 ^ 63 → (∀ i, start ≤ i → i < size → bitmap i = true) →
    size < find bitmap size start ∧ find bitmap size start < 2 ^ 64

section

variable (find : FindNextZeroArea)

/-- `bitmap_allocate` in one of the size classes: the bit that it finds, and the class with the bit set. The
search reads the words up to the bit, or all of them. -/
def SizeClass.take (words : Nat) (c : SizeClass) : Except Bug (Nat × SizeClass) := do
  let off := find c.bitmap c.nbits c.lastPos
  ensure (c.lastPos < c.nbits → min off (c.nbits - 1) < 64 * words) (.outOfBounds .bitmapAllocate)
  let bitmap ← bitmapSet words c.bitmap off
  let lastPos := u64 (off + 1)
  let lastPos := if c.nbits < lastPos then 0 else lastPos
  pure (off, { c with bitmap, lastPos })

/-- `bitmap_allocate`. Where a length is above `LARGE_LENGTH`, and near the end of the bitmaps, it only writes
to the log. -/
def bitmapAllocate (s : BitmapAllocator) (length : Nat) : Except Bug (Nat × BitmapAllocator) :=
  if smallLength < length then do
    let (off, large) ← s.large.take find largeWords
    pure (u64 (s.devSize / 2 + u64 (off * largeLength)), { s with large })
  else do
    let (off, small) ← s.small.take find smallWords
    pure (u64 (off * smallLength), { s with small })

/-- `bitmap_ops`. -/
def bitmapOps : AllocatorOps BitmapAllocator where
  init := bitmapAllocatorInit
  allocate := bitmapAllocate find

end

/-- The search as the kernel does it: without a clear bit it returns the end of an area at `size`. -/
def findNextZeroArea : FindNextZeroArea := fun bitmap size start =>
  ((List.range' start (size - start)).find? fun i => !bitmap i).getD (size + 1)

theorem findsFirst_findNextZeroArea : FindsFirst findNextZeroArea where
  found := by
    intro bitmap size start i hstart hsize hclear hset
    have hfind : (List.range' start (size - start)).find? (fun j => !bitmap j) = some i := by
      rw [List.find?_range'_eq_some, List.mem_range'_1]
      refine ⟨by simp [hclear], by omega, fun j hj hji => ?_⟩
      simp [hset j hj hji]
    unfold findNextZeroArea
    rw [hfind]
    rfl
  full := by
    intro bitmap size start hsize hset
    have hfind : (List.range' start (size - start)).find? (fun j => !bitmap j) = none := by
      rw [List.find?_eq_none]
      intro j hj
      rw [List.mem_range'_1] at hj
      simp [hset j hj.1 (by omega)]
    unfold findNextZeroArea
    rw [hfind]
    exact ⟨Nat.lt_succ_self size, by show size + 1 < 2 ^ 64; omega⟩

/-! ## Runs of an allocator -/

/-- A call of `allocate` that returned. -/
structure Call (σ : Type) where
  before : σ
  length : Nat
  offset : Nat

/-- The bytes `[offset, offset + length)`. -/
def Call.extent {σ : Type} (c : Call σ) : Span := { start := c.offset, len := c.length }

section

variable {σ : Type} (ops : AllocatorOps σ)

/-- One more call. -/
def AllocatorOps.serve (t : σ × List (Call σ)) (length : Nat) : Except Bug (σ × List (Call σ)) := do
  let (offset, s) ← ops.allocate t.1 length
  pure (s, t.2 ++ [{ before := t.1, length, offset }])

/-- `init` and then calls of these lengths. -/
def AllocatorOps.run (devSize : Nat) (lengths : List Nat) : Except Bug (σ × List (Call σ)) := do
  let s ← ops.init devSize
  lengths.foldlM ops.serve (s, [])

/-- The extents of the calls that did not return -1 are in the device and disjoint, and the calls for which
there was no room did return -1. -/
structure Lawful (devSize : Nat) (room : σ → Nat → Prop) (calls : List (Call σ)) : Prop where
  inside : ∀ c ∈ calls, c.offset ≠ noOffset → ∀ x, c.extent.Has x → x < devSize
  disjoint : calls.Pairwise fun c d => c.offset ≠ noOffset → d.offset ≠ noOffset →
    ∀ x, ¬ (c.extent.Has x ∧ d.extent.Has x)
  refused : ∀ c ∈ calls, ¬ room c.before c.length → c.offset = noOffset

/-- The calls of these lengths return, and they are lawful. -/
def HandsOut (room : σ → Nat → Prop) (devSize : Nat) (lengths : List Nat) : Prop :=
  Total (ops.run devSize lengths) fun t => Lawful devSize room t.2

end

section Rules

variable {σ : Type} {ops : AllocatorOps σ} {devSize : Nat} {room : σ → Nat → Prop}

theorem Lawful.of_prefix {calls calls' : List (Call σ)} (h : Lawful devSize room calls') (hpre : calls <+: calls') :
    Lawful devSize room calls where
  inside c hc := h.inside c (hpre.subset hc)
  disjoint := h.disjoint.sublist hpre.sublist
  refused c hc := h.refused c (hpre.subset hc)

theorem AllocatorOps.serve_ok {t : σ × List (Call σ)} {length offset : Nat} {s : σ}
    (h : ops.allocate t.1 length = .ok (offset, s)) :
    ops.serve t length = .ok (s, t.2 ++ [{ before := t.1, length, offset }]) := by
  unfold AllocatorOps.serve
  rw [h]
  rfl

theorem AllocatorOps.serve_prefix (t : σ × List (Call σ)) (length : Nat) :
    Partial (ops.serve t length) fun t' => t.2 <+: t'.2 := by
  intro t' ht'
  obtain ⟨r, -, hr⟩ := bind_ok.mp ht'
  cases hr
  exact List.prefix_append _ _

theorem AllocatorOps.run_prefix (t : σ × List (Call σ)) (lengths : List Nat) :
    Partial (lengths.foldlM ops.serve t) fun t' => t.2 <+: t'.2 :=
  Partial.foldlM (List.prefix_refl _) fun t' ht' l _ => (ops.serve_prefix t' l).mono fun _ h => ht'.trans h

variable {I : σ × List (Call σ) → Prop} {good : σ → Nat → Prop} {lengths : List Nat} {t : σ × List (Call σ)}

/-- An invariant of lawful calls, which every good call keeps. -/
theorem lawful_of_always (hI : I t) (lawful : ∀ t, I t → Lawful devSize room t.2)
    (step : ∀ t l, I t → l ∈ lengths → good t.1 l → Total (ops.serve t l) I)
    (h : Always ops.serve (fun t l => good t.1 l) t lengths) :
    Total (lengths.foldlM ops.serve t) fun t => Lawful devSize room t.2 := by
  induction lengths generalizing t with
  | nil => exact .ret (lawful t hI)
  | cons l lengths ih =>
    obtain ⟨t', ht', hI'⟩ := step t l hI List.mem_cons_self h.1
    rw [List.foldlM_cons, ht', ok_bind]
    exact ih hI' (fun t l hI hl => step t l hI (List.mem_cons_of_mem _ hl)) (h.2 t' ht')

/-- Where every other call that returns breaks the law, the runs of good calls are the lawful ones. -/
theorem lawful_iff_always (hI : I t) (lawful : ∀ t, I t → Lawful devSize room t.2)
    (step : ∀ t l, I t → l ∈ lengths → good t.1 l → Total (ops.serve t l) I)
    (bad : ∀ t l, I t → l ∈ lengths → ¬ good t.1 l →
      Partial (ops.serve t l) fun t' => ¬ Lawful devSize room t'.2) :
    (Total (lengths.foldlM ops.serve t) fun t => Lawful devSize room t.2) ↔
      Always ops.serve (fun t l => good t.1 l) t lengths := by
  refine ⟨fun h => ?_, lawful_of_always hI lawful step⟩
  induction lengths generalizing t with
  | nil => trivial
  | cons l lengths ih =>
    obtain ⟨t'', hrun, hlaw⟩ := h
    rw [List.foldlM_cons] at hrun
    obtain ⟨t', ht', hrun⟩ := bind_ok.mp hrun
    have hgood : good t.1 l := by
      by_contra hbad
      exact bad t l hI List.mem_cons_self hbad t' ht' (hlaw.of_prefix (ops.run_prefix t' lengths t'' hrun))
    refine ⟨hgood, fun s hs => ?_⟩
    obtain rfl : t' = s := Except.ok.inj (ht'.symm.trans hs)
    obtain ⟨s, hs', hI'⟩ := step t l hI List.mem_cons_self hgood
    obtain rfl : t' = s := Except.ok.inj (ht'.symm.trans hs')
    exact ih hI' (fun t l hI hl => step t l hI (List.mem_cons_of_mem _ hl))
      (fun t l hI hl => bad t l hI (List.mem_cons_of_mem _ hl)) ⟨t'', hrun, hlaw⟩

end Rules

/-- There are `length` bytes left. -/
def AppendOnly.Room (s : AppendOnly) (length : Nat) : Prop := s.latest + length ≤ s.devSize

/-- There is a place left in the class of `length`. -/
def BitmapAllocator.Room (s : BitmapAllocator) (length : Nat) : Prop :=
  if smallLength < length then ∃ i < s.large.nbits, s.large.bitmap i = false
  else ∃ i < s.small.nbits, s.small.bitmap i = false

/-- The allocator that `allocate_mem_offset` calls is the append-only one. -/
theorem allocateMemOffset_appendOnly (f : KvFtl) (cmd : KvCommand) :
    let (offset, s) := appendOnlyAllocate { latest := f.latest, devSize := f.storageSize } cmd.valueLength
    allocateMemOffset f cmd = (if offset = noOffset then 0 else offset, { f with latest := s.latest }) := rfl

end Nvmev
