import NvmeVirt.Conv.Runs
import NvmeVirt.Lib.Strides

/-!
# The NAND reads of a command

`conv_read` goes through the partitions, and in each through the logical pages of the command. It gathers
pages that follow each other in one flash page into one NAND read.

`nandReads` are the NAND reads of a command: a timing model that records them finds them, and
`convRead_perf` says that every timing model gets them. `reads_cover_mapped` says which pages they are
for.
-/

namespace Nvmev

open CInt Function Outcome

variable {τ : Type}

/-! ## The commands that are issued -/

/-- A NAND command and the partition that issues it. -/
structure Issue where
  part : Nat
  cmd : NandCmd

/-- A timing model of the partition `part` that records the NAND commands. -/
def PerfModel.recording (part : Nat) : PerfModel (List Issue) where
  advanceNand issues cmd := (cmd.stime, issues ++ [{ part, cmd }])
  advancePcie issues requestTime _ := (requestTime, issues)
  advanceWriteBuffer issues requestTime _ := (requestTime, issues)
  nextIdleTime issues := (0, issues)
  localClock issues := (0, issues)

/-- The timing model after NAND commands. -/
def replay (B : Nat → PerfModel τ) (t : τ) (issues : List Issue) : τ :=
  issues.foldl (fun t i => ((B i.part).advanceNand t i.cmd).2) t

/-- The NAND commands of `conv_read`. -/
def nandReads (ns : ConvNs τ) (req : RwRequest) : List Issue :=
  (convRead PerfModel.recording { ns with perf := [] } req).ftl.perf

section Replay

variable (B : Nat → PerfModel τ) (t : τ)

/-- The loop of `conv_read` with a timing model, and with the one that records. -/
structure Replays (s : ReadLoop τ) (r : ReadLoop (List Issue)) : Prop where
  perf : s.perf = replay B t r.perf
  prevPpa : s.prevPpa = r.prevPpa
  xferSize : s.xferSize = r.xferSize

variable {B t} {s : ReadLoop τ} {r : ReadLoop (List Issue)}

theorem Replays.issue (h : Replays B t s r) (p stime : Nat) :
    Replays B t (s.issue (B p) stime) (r.issue (.recording p) stime) := by
  unfold ReadLoop.issue
  rw [h.xferSize, h.prevPpa]
  split
  · refine ⟨?_, rfl, rfl⟩
    show ((B p).advanceNand s.perf _).2 = replay B t (r.perf ++ [_])
    rw [h.perf, replay, replay, List.foldl_append]
    rfl
  · exact h

theorem Replays.convReadLpn (h : Replays B t s r) (f : ConvFtl) (p stime lpn : Nat) :
    Replays B t (convReadLpn (B p) f stime s lpn) (convReadLpn (.recording p) f stime r lpn) := by
  unfold Nvmev.convReadLpn
  dsimp only
  rw [h.prevPpa, h.xferSize]
  split
  · exact h
  split
  · exact ⟨h.perf, rfl, rfl⟩
  · exact ⟨(h.issue p stime).perf, rfl, rfl⟩

theorem Replays.convReadPart (h : Replays B t s r) (ns : ConvNs τ) (stime endLpn startLpn : Nat) :
    Replays B t (convReadPart B ns stime endLpn s startLpn)
      (convReadPart .recording { ns with perf := [] } stime endLpn r startLpn) := by
  unfold Nvmev.convReadPart
  dsimp only
  apply Replays.issue
  apply List.foldl_rel (r := Replays B t)
  · exact ⟨h.perf, rfl, rfl⟩
  · intro i _ s' r' h'
    exact h'.convReadLpn ..

/-- Every timing model gets the commands of `nandReads`, in their order. -/
theorem convRead_perf (B : Nat → PerfModel τ) (ns : ConvNs τ) (req : RwRequest) :
    (convRead B ns req).ftl.perf = replay B ns.perf (nandReads ns req) := by
  unfold nandReads convRead
  dsimp only
  split
  · rfl
  · refine Replays.perf (List.foldl_rel (r := Replays B ns.perf) ⟨rfl, rfl, rfl⟩ ?_)
    intro i _ s r h
    exact h.convReadPart ns ..

end Replay

/-! ## The pages of the reads -/

/-- The entry of the logical page in the mapping table of its partition. -/
def ConvNs.entry (ns : ConvNs τ) (lpn : Nat) : Ppa :=
  (ns.ftls (lpn % ns.nrParts)).maptbl (lpn / ns.nrParts)

/-- The logical pages of a command that are mapped. -/
def mappedLpns (ns : ConvNs τ) (req : RwRequest) : List Nat :=
  (List.range' (startLpn ns req) (endLpn ns req + 1 - startLpn ns req)).filter fun lpn =>
    mappedPpa (ns.entry lpn)

/-- The NAND read `i` transfers the pages of the logical pages `lpns` and nothing else: they are pages of
its partition in the flash page that it reads. -/
structure ReadsPages (ns : ConvNs τ) (sp : SsdParams) (i : Issue) (lpns : List Nat) : Prop where
  read : i.cmd.type = .userIo ∧ i.cmd.cmd = .read
  xferSize : i.cmd.xferSize = sp.pgsz * lpns.length
  onePage : i.cmd.xferSize ≤ sp.pgsz * sp.pgsPerFlashpg
  part : ∀ lpn ∈ lpns, lpn % ns.nrParts = i.part
  flashPage : ∀ lpn ∈ lpns, isSameFlashPage sp (ns.entry lpn) i.cmd.ppa = true

/-- The NAND reads `issues` transfer every page of `lpns` once. -/
structure ReadsEach (ns : ConvNs τ) (sp : SsdParams) (issues : List Issue) (lpns : List Nat) : Prop where
  pages : ∃ groups : List (List Nat), List.Forall₂ (ReadsPages ns sp) issues groups ∧
    groups.flatten.Perm lpns
  total : (issues.map (·.cmd.xferSize)).sum = sp.pgsz * lpns.length

/-- The maps of every partition, on the local logical pages below `m`. -/
structure MapsKept (ns : ConvNs τ) (sp : SsdParams) (m : Nat) : Prop where
  parts : 0 < ns.nrParts
  sp_eq : ∀ p < ns.nrParts, (ns.ftls p).sp = sp
  map : ∀ p < ns.nrParts, ∃ written, MapInv (ns.ftls p) m written (fun _ => False) fun _ => False

/-- The command ends inside the local logical pages below `m`. -/
structure InRange (ns : ConvNs τ) (m : Nat) (req : RwRequest) : Prop where
  slba : req.cmd.slba + req.cmd.nrLbas ≤ 2 ^ 64
  lpn : endLpn ns req / ns.nrParts < m

/-- The part of a geometry that reading needs: a flash page has pages, and their bytes fit 32 bits. -/
structure ReadGeometry (sp : SsdParams) : Prop where
  planes : 0 < sp.plsPerLun
  pgsz : 0 < sp.pgsz
  flashpg : 0 < sp.pgsPerFlashpg
  fits : sp.pgsz * sp.pgsPerFlashpg < 2 ^ 32

theorem Geometry.read {sp : SsdParams} (g : Geometry sp) (hs : sp.Sectors) : ReadGeometry sp := by
  have hblk := g.line.blk
  have hfits := g.fits.pg
  rw [g.flashpg] at hblk hfits
  have hle : sp.pgsPerFlashpg ≤ sp.pgsPerFlashpg * sp.flashpgsPerBlk :=
    Nat.le_mul_of_pos_right _ (Nat.pos_of_mul_pos_left hblk)
  refine ⟨?_, ?_, Nat.pos_of_mul_pos_right hblk, ?_⟩
  · rw [g.planes]
    decide
  · rw [hs.pgsz]
    decide
  · rw [hs.pgsz]
    omega

section Gather

variable {ns : ConvNs τ} {sp : SsdParams} {m p : Nat}

theorem MapsKept.onChip (h : MapsKept ns sp m) {lpn : Nat} (hlpn : lpn / ns.nrParts < m)
    (hm : mappedPpa (ns.entry lpn) = true) : OnChip sp (ns.entry lpn) := by
  have hp : lpn % ns.nrParts < ns.nrParts := Nat.mod_lt _ h.parts
  obtain ⟨written, hmap⟩ := h.map _ hp
  have hon := (hmap.page _ hlpn id hm).1
  rwa [h.sp_eq _ hp] at hon

/-- Two logical pages of a partition are not at one page. -/
theorem MapsKept.injective (h : MapsKept ns sp m) {l l' : Nat} (hl : l / ns.nrParts < m)
    (hl' : l' / ns.nrParts < m) (hpart : l % ns.nrParts = l' % ns.nrParts)
    (hm : mappedPpa (ns.entry l) = true) (he : ns.entry l = ns.entry l') : l = l' := by
  obtain ⟨written, hmap⟩ := h.map _ (Nat.mod_lt l h.parts)
  unfold ConvNs.entry at hm he
  rw [← hpart] at he
  have hdiv := hmap.injective hl hl' id id hm he
  rw [← Nat.div_add_mod l ns.nrParts, ← Nat.div_add_mod l' ns.nrParts, hdiv, hpart]

/-- Logical pages `lpns` of the partition `p` with entries in the flash page of `ppa`. -/
structure OneFlashPage (ns : ConvNs τ) (sp : SsdParams) (p : Nat) (ppa : Ppa) (lpns : List Nat) :
    Prop where
  nodup : lpns.Nodup
  part : ∀ lpn ∈ lpns, lpn % ns.nrParts = p
  mapped : ∀ lpn ∈ lpns, mappedPpa (ns.entry lpn) = true
  same : ∀ lpn ∈ lpns, isSameFlashPage sp (ns.entry lpn) ppa = true

/-- A flash page has its pages for at most `pgs_per_flashpg` logical pages. -/
theorem OneFlashPage.length_le {ppa : Ppa} {lpns : List Nat} (h : OneFlashPage ns sp p ppa lpns)
    (hk : MapsKept ns sp m) (g : ReadGeometry sp) (hlt : ∀ lpn ∈ lpns, lpn / ns.nrParts < m) :
    lpns.length ≤ sp.pgsPerFlashpg := by
  have hnodup : (lpns.map fun lpn => (ns.entry lpn).pg % sp.pgsPerFlashpg).Nodup := by
    refine h.nodup.map_on fun l hl l' hl' hmod => ?_
    have h1 := hk.onChip (hlt l hl) (h.mapped l hl)
    have h2 := hk.onChip (hlt l' hl') (h.mapped l' hl')
    have s1 := h.same l hl
    have s2 := h.same l' hl'
    simp only [isSameFlashPage, Bool.and_eq_true, beq_iff_eq] at s1 s2
    obtain ⟨⟨⟨⟨hblk, -⟩, hlun⟩, hch⟩, hdiv⟩ := s1
    obtain ⟨⟨⟨⟨hblk', -⟩, hlun'⟩, hch'⟩, hdiv'⟩ := s2
    have hpg : (ns.entry l).pg = (ns.entry l').pg := by
      rw [← Nat.div_add_mod (ns.entry l).pg sp.pgsPerFlashpg,
        ← Nat.div_add_mod (ns.entry l').pg sp.pgsPerFlashpg, hdiv, hdiv', hmod]
    refine hk.injective (hlt l hl) (hlt l' hl') ?_ (h.mapped l hl) ?_
    · rw [h.part l hl, h.part l' hl']
    · rw [h1.eq_pageAt, h2.eq_pageAt, hblk, hblk', hch, hch', hlun, hlun', hpg]
  have hsub : (lpns.map fun lpn => (ns.entry lpn).pg % sp.pgsPerFlashpg) ⊆
      List.range sp.pgsPerFlashpg := by
    intro x hx
    obtain ⟨lpn, -, rfl⟩ := List.mem_map.mp hx
    exact List.mem_range.mpr (Nat.mod_lt _ g.flashpg)
  have hle := (hnodup.subperm hsub).length_le
  rwa [List.length_map, List.length_range] at hle

/-- The inner loop of `conv_read` after the logical pages `done` of the partition `p`. The issued reads
are for `groups`, and the pages `lpns` wait for the next read. -/
structure Gathered (ns : ConvNs τ) (sp : SsdParams) (p : Nat) (before : List Issue) (done : List Nat)
    (s : ReadLoop (List Issue)) (issues : List Issue) (groups : List (List Nat)) (lpns : List Nat) :
    Prop where
  perf : s.perf = before ++ issues
  reads : List.Forall₂ (ReadsPages ns sp) issues groups
  pages : groups.flatten ++ lpns = done.filter fun lpn => mappedPpa (ns.entry lpn)
  xferSize : s.xferSize = sp.pgsz * lpns.length
  waiting : OneFlashPage ns sp p s.prevPpa lpns

variable (hk : MapsKept ns sp m) (g : ReadGeometry sp)
  {before issues : List Issue} {groups : List (List Nat)} {done lpns : List Nat}
  {s : ReadLoop (List Issue)}

include hk g

/-- The read of the waiting pages. -/
theorem Gathered.issue (h : Gathered ns sp p before done s issues groups lpns)
    (hlt : ∀ lpn ∈ lpns, lpn / ns.nrParts < m) (stime : Nat) :
    ∃ issues' groups', (s.issue (.recording p) stime).perf = before ++ issues' ∧
      List.Forall₂ (ReadsPages ns sp) issues' groups' ∧
        groups'.flatten = done.filter fun lpn => mappedPpa (ns.entry lpn) := by
  unfold ReadLoop.issue
  by_cases hzero : s.xferSize > 0
  · rw [if_pos hzero]
    let i : Issue := ⟨p, { type := .userIo, cmd := .read, xferSize := s.xferSize, stime
                           interleavePciDma := true, ppa := s.prevPpa }⟩
    have hread : ReadsPages ns sp i lpns := by
      refine ⟨⟨rfl, rfl⟩, h.xferSize, ?_, h.waiting.part, h.waiting.same⟩
      show s.xferSize ≤ _
      rw [h.xferSize]
      exact Nat.mul_le_mul_left _ (h.waiting.length_le hk g hlt)
    refine ⟨issues ++ [i], groups ++ [lpns], ?_, ?_, ?_⟩
    · rw [← List.append_assoc, ← h.perf]
      rfl
    · exact List.rel_append h.reads (.cons hread .nil)
    · rw [List.flatten_append, List.flatten_singleton, h.pages]
  · -- No page waits.
    rw [if_neg hzero]
    have hnil : lpns = [] := by
      have hmul : sp.pgsz * lpns.length = 0 := by
        rw [← h.xferSize]
        omega
      rcases Nat.mul_eq_zero.mp hmul with h0 | h0
      · exact absurd h0 (Nat.ne_of_gt g.pgsz)
      · exact List.length_eq_zero_iff.mp h0
    refine ⟨issues, groups, h.perf, h.reads, ?_⟩
    rw [← h.pages, hnil, List.append_nil]

omit hk g in
theorem Gathered.mem_done (h : Gathered ns sp p before done s issues groups lpns) {lpn : Nat}
    (hlpn : lpn ∈ lpns) : lpn ∈ done := by
  have hmem : lpn ∈ done.filter fun lpn => mappedPpa (ns.entry lpn) := by
    rw [← h.pages]
    exact List.mem_append_right _ hlpn
  exact List.mem_of_mem_filter hmem

/-- A page that is mapped joins the waiting ones or sends them off; one that is not does nothing. -/
theorem Gathered.turn (h : Gathered ns sp p before done s issues groups lpns)
    (hlt : ∀ l ∈ done, l / ns.nrParts < m) {lpn : Nat} (hlpn : lpn / ns.nrParts < m)
    (hp : lpn % ns.nrParts = p) (hnew : lpn ∉ done) (stime : Nat) :
    ∃ issues' groups' lpns', Gathered ns sp p before (done ++ [lpn])
      (convReadLpn (.recording p) (ns.ftls p) stime s (lpn / ns.nrParts)) issues' groups' lpns' := by
  have hentry : (ns.ftls p).maptbl (lpn / ns.nrParts) = ns.entry lpn := by rw [← hp]; rfl
  have hsp : (ns.ftls p).sp = sp := hk.sp_eq p (by rw [← hp]; exact Nat.mod_lt _ hk.parts)
  have hwait : ∀ l ∈ lpns, l / ns.nrParts < m := fun l hl => hlt l (h.mem_done hl)
  unfold convReadLpn
  dsimp only
  rw [hentry, hsp]
  by_cases hm : mappedPpa (ns.entry lpn) = true
  · have hon := hk.onChip hlpn hm
    have hvalid : validPpa sp (ns.entry lpn) = true := by
      have hpl : (ns.entry lpn).pl < sp.plsPerLun := by rw [hon.pl]; exact g.planes
      simp [validPpa, hon.ch, hon.lun, hon.blk, hon.pg, hpl]
    have hfilter : (done ++ [lpn]).filter (fun l => mappedPpa (ns.entry l)) =
        done.filter (fun l => mappedPpa (ns.entry l)) ++ [lpn] := by simp [hm]
    rw [if_neg (by simp [hm, hvalid])]
    by_cases hsame : (mappedPpa s.prevPpa && isSameFlashPage sp (ns.entry lpn) s.prevPpa) = true
    · rw [if_pos hsame]
      have hwaiting : OneFlashPage ns sp p s.prevPpa (lpns ++ [lpn]) := by
        refine ⟨?_, ?_, ?_, ?_⟩
        · refine List.nodup_append.mpr ⟨h.waiting.nodup, List.nodup_singleton _, ?_⟩
          rintro l hl l' hl' rfl
          rw [List.mem_singleton] at hl'
          exact hnew (hl' ▸ h.mem_done hl)
        · exact List.forall_mem_append.mpr ⟨h.waiting.part, by simpa using hp⟩
        · exact List.forall_mem_append.mpr ⟨h.waiting.mapped, by simpa using hm⟩
        · exact List.forall_mem_append.mpr ⟨h.waiting.same, by simp_all⟩
      have hlen := hwaiting.length_le hk g (List.forall_mem_append.mpr ⟨hwait, by simpa using hlpn⟩)
      have hsize : s.xferSize + sp.pgsz = sp.pgsz * (lpns ++ [lpn]).length := by
        rw [h.xferSize, List.length_append, List.length_singleton, Nat.mul_add, Nat.mul_one]
      refine ⟨issues, groups, lpns ++ [lpn], h.perf, h.reads, ?_, ?_, hwaiting⟩
      · rw [hfilter, ← h.pages, List.append_assoc]
      · show u32 (s.xferSize + sp.pgsz) = _
        rw [hsize, u32_of_lt]
        exact Nat.lt_of_le_of_lt (Nat.mul_le_mul_left _ hlen) g.fits
    · rw [if_neg hsame]
      obtain ⟨issues', groups', hperf, hreads, hpages⟩ := h.issue hk g hwait stime
      refine ⟨issues', groups', [lpn], hperf, hreads, ?_, ?_, ?_⟩
      · rw [hfilter, hpages]
      · show sp.pgsz = _
        rw [List.length_singleton, Nat.mul_one]
      · have hself : isSameFlashPage sp (ns.entry lpn) (ns.entry lpn) = true := by simp [isSameFlashPage]
        exact ⟨List.nodup_singleton _, by simpa using hp, by simpa using hm, by simpa using hself⟩
  · rw [if_pos (by simp [hm])]
    refine ⟨issues, groups, lpns, h.perf, h.reads, ?_, h.xferSize, h.waiting⟩
    rw [h.pages]
    simp [hm]

/-- The inner loop over the logical pages `l`. -/
theorem Gathered.loop (h : Gathered ns sp p before done s issues groups lpns) {l : List Nat}
    (hlt : ∀ q ∈ done ++ l, q / ns.nrParts < m) (hp : ∀ q ∈ l, q % ns.nrParts = p)
    (hnodup : (done ++ l).Nodup) (stime : Nat) :
    ∃ issues' groups' lpns', Gathered ns sp p before (done ++ l)
      (l.foldl (fun s q => convReadLpn (.recording p) (ns.ftls p) stime s (q / ns.nrParts)) s)
      issues' groups' lpns' := by
  induction l generalizing done s issues groups lpns with
  | nil => exact ⟨issues, groups, lpns, by rwa [List.append_nil]⟩
  | cons q l ih =>
    rw [List.append_cons] at hlt hnodup
    have hnew : q ∉ done := by
      intro hq
      have hdisj := List.disjoint_of_nodup_append (List.nodup_append.mp hnodup).1
      exact hdisj hq (List.mem_singleton_self q)
    obtain ⟨issues', groups', lpns', hturn⟩ := h.turn hk g (fun r hr => hlt r (by simp [hr]))
      (hlt q (by simp)) (hp q (by simp)) hnew stime
    rw [List.append_cons, List.foldl_cons]
    exact ih hturn hlt (fun r hr => hp r (List.mem_cons_of_mem _ hr)) hnodup

/-- The logical pages from `start` on, up to `start + n - 1`, in the strides of the partitions. -/
def partLpns (nrParts start n i : Nat) : List Nat := (Strides.stride nrParts n i).map fun j => start + j

omit g in
theorem mem_partLpns {start n i q : Nat} (hi : i < n) (hq : q ∈ partLpns ns.nrParts start n i) :
    q % ns.nrParts = (start + i) % ns.nrParts ∧ q < start + n := by
  obtain ⟨j, hj, rfl⟩ := List.mem_map.mp hq
  obtain ⟨hlt, -, hmod⟩ := (Strides.mem_stride hk.parts hi).mp hj
  exact ⟨Nat.ModEq.add_left start hmod, by omega⟩

/-- The reads of one partition. -/
theorem convReadPart_reads {start n i : Nat} (hi : i < n)
    (hlt : ∀ q < start + n, q / ns.nrParts < m) (stime : Nat) (s : ReadLoop (List Issue)) :
    ∃ issues groups, (convReadPart .recording { ns with perf := [] } stime (start + n - 1) s
        (start + i)).perf = s.perf ++ issues ∧
      List.Forall₂ (ReadsPages ns sp) issues groups ∧
        groups.flatten = (partLpns ns.nrParts start n i).filter fun q => mappedPpa (ns.entry q) := by
  have hfold (p : Nat) (s : ReadLoop (List Issue)) :
      (List.range ((start + n - 1 - (start + i)) / ns.nrParts + 1)).foldl (fun s j =>
        convReadLpn (.recording p) (ns.ftls p) stime s ((start + i + j * ns.nrParts) / ns.nrParts)) s =
      (partLpns ns.nrParts start n i).foldl (fun s q =>
        convReadLpn (.recording p) (ns.ftls p) stime s (q / ns.nrParts)) s := by
    have hcount : start + n - 1 - (start + i) = n - 1 - i := by omega
    rw [partLpns, Strides.stride, List.foldl_map, List.foldl_map, hcount]
    simp only [Nat.add_assoc]
  unfold convReadPart
  dsimp only
  rw [hfold]
  generalize hp : (start + i) % ns.nrParts = p
  have hnodup : (partLpns ns.nrParts start n i).Nodup :=
    (Strides.nodup_stride hk.parts).map fun _ _ => Nat.add_left_cancel
  have hmem (q : Nat) (hq : q ∈ partLpns ns.nrParts start n i) :
      q / ns.nrParts < m ∧ q % ns.nrParts = p := by
    obtain ⟨hmod, hltq⟩ := mem_partLpns hk hi hq
    exact ⟨hlt q hltq, hmod.trans hp⟩
  have hinit : Gathered ns sp p s.perf []
      { s with xferSize := 0, prevPpa := (ns.ftls p).maptbl ((start + i) / ns.nrParts) } [] [] [] :=
    ⟨(List.append_nil _).symm, .nil, rfl, (Nat.mul_zero _).symm,
      ⟨List.nodup_nil, by simp, by simp, by simp⟩⟩
  obtain ⟨issues, groups, lpns, hloop⟩ := hinit.loop hk g (fun q hq => (hmem q (by simpa using hq)).1)
    (fun q hq => (hmem q hq).2) hnodup stime
  exact hloop.issue hk g (fun q hq => (hmem q (by simpa using hloop.mem_done hq)).1) stime

/-- The reads of the first `k` partitions. -/
theorem convReadParts_reads {start n k : Nat} (hkn : k ≤ n)
    (hlt : ∀ q < start + n, q / ns.nrParts < m) (stime : Nat) (s : ReadLoop (List Issue))
    (hs : s.perf = []) : ∃ groups, List.Forall₂ (ReadsPages ns sp)
        ((List.range k).foldl (fun s i => convReadPart .recording { ns with perf := [] } stime
          (start + n - 1) s (start + i)) s).perf groups ∧
      groups.flatten = ((List.range k).flatMap (partLpns ns.nrParts start n)).filter fun q =>
        mappedPpa (ns.entry q) := by
  induction k with
  | zero => exact ⟨[], by simp [hs], rfl⟩
  | succ k ih =>
    obtain ⟨groups, hreads, hpages⟩ := ih (by omega)
    simp only [List.range_succ, List.foldl_append, List.flatMap_append, List.filter_append]
    obtain ⟨issues, groups', hperf, hreads', hpages'⟩ := convReadPart_reads hk g
      (show k < n by omega) hlt stime ((List.range k).foldl (fun s i => convReadPart .recording
        { ns with perf := [] } stime (start + n - 1) s (start + i)) s)
    refine ⟨groups ++ groups', ?_, ?_⟩
    · show List.Forall₂ _ (convReadPart _ _ _ _ _ _).perf _
      rw [hperf]
      exact List.rel_append hreads hreads'
    · rw [List.flatten_append, hpages, hpages']
      simp

end Gather

/-- The sizes of reads that are for `groups`. -/
theorem sum_xferSize {ns : ConvNs τ} {sp : SsdParams} {issues : List Issue} {groups : List (List Nat)}
    (h : List.Forall₂ (ReadsPages ns sp) issues groups) :
    (issues.map (·.cmd.xferSize)).sum = sp.pgsz * groups.flatten.length := by
  induction h with
  | nil => rfl
  | cons hread _ ih =>
    rw [List.map_cons, List.sum_cons, ih, hread.xferSize, List.flatten_cons, List.length_append,
      Nat.mul_add]

/-- In a state with the mapping invariant, the NAND reads of a command transfer the page of each of its
mapped logical pages once, and nothing else. -/
theorem reads_cover_mapped {sp : SsdParams} (g : ReadGeometry sp) {ns : ConvNs τ} {m : Nat}
    (hk : MapsKept ns sp m) {req : RwRequest} (hrange : InRange ns m req) :
    (∀ B : Nat → PerfModel τ, (convRead B ns req).accepted = true ∧
      (convRead B ns req).ftl.perf = replay B ns.perf (nandReads ns req)) ∧
    ReadsEach ns sp (nandReads ns req) (mappedLpns ns req) := by
  have hpos := nrLbas_pos req.cmd
  have hslba := hrange.slba
  have hle : startLpn ns req ≤ endLpn ns req := by
    unfold startLpn endLpn
    rw [u64_of_lt (by omega), u64_of_lt (by omega)]
    exact Nat.div_le_div_right (by omega)
  have hm : m ≤ (ns.ftls 0).sp.ttPgs := by
    obtain ⟨written, hmap⟩ := hk.map 0 hk.parts
    exact hmap.le_ttPgs
  have hrefuse : ¬ u64 (req.cmd.slba + req.cmd.nrLbas - 1) / (ns.ftls 0).sp.secsPerPg / ns.nrParts ≥
      (ns.ftls 0).sp.ttPgs := by
    have hlpn : endLpn ns req / ns.nrParts < m := hrange.lpn
    unfold endLpn at hlpn
    omega
  have haccept (B : Nat → PerfModel τ) : (convRead B ns req).accepted = true := by
    unfold convRead
    dsimp only
    rw [if_neg hrefuse]
  refine ⟨fun B => ⟨haccept B, convRead_perf B ns req⟩, ?_⟩
  obtain ⟨n, hn⟩ : ∃ n, endLpn ns req + 1 = startLpn ns req + n :=
    ⟨endLpn ns req + 1 - startLpn ns req, by omega⟩
  have hlt (q : Nat) (hq : q < startLpn ns req + n) : q / ns.nrParts < m :=
    Nat.lt_of_le_of_lt (Nat.div_le_div_right (by omega)) hrange.lpn
  -- The loop over the partitions.
  have hreads : ∃ groups, List.Forall₂ (ReadsPages ns sp) (nandReads ns req) groups ∧
      groups.flatten = ((List.range (min ns.nrParts n)).flatMap
        (partLpns ns.nrParts (startLpn ns req) n)).filter fun q => mappedPpa (ns.entry q) := by
    have hend : u64 (req.cmd.slba + req.cmd.nrLbas - 1) / (ns.ftls 0).sp.secsPerPg =
        startLpn ns req + n - 1 := by
      show endLpn ns req = _
      omega
    have hstart : u64 req.cmd.slba / (ns.ftls 0).sp.secsPerPg = startLpn ns req := rfl
    have hcount : startLpn ns req + n - 1 + 1 - startLpn ns req = n := by omega
    unfold nandReads convRead
    dsimp only
    rw [if_neg hrefuse, hend, hstart, hcount]
    exact convReadParts_reads hk g (Nat.min_le_right _ _) hlt _ _ rfl
  obtain ⟨groups, hread, hpages⟩ := hreads
  have hperm : groups.flatten.Perm (mappedLpns ns req) := by
    have hstrides := (Strides.flatMap_strides_perm hk.parts n).map fun j => startLpn ns req + j
    have hrange' : endLpn ns req + 1 - startLpn ns req = n := by omega
    rw [hpages, mappedLpns, hrange', List.range'_eq_map_range]
    refine List.Perm.filter _ ?_
    rw [List.map_flatMap] at hstrides
    exact hstrides
  refine ⟨⟨groups, hread, hperm⟩, ?_⟩
  rw [sum_xferSize hread, hperm.length_eq]

/-- A reachable state has the mapping invariant. -/
theorem NsInv.mapsKept {S M : Prop} {sp : SsdParams} {m nrParts size wb : Nat} {s : ConvLogged τ}
    (h : NsInv S M sp m nrParts size wb s) (hM : M) : MapsKept s.device.ns sp m := by
  have hparts := h.nrParts_eq
  refine ⟨by rw [hparts]; exact h.nrParts_pos, fun p hp => ?_, fun p hp => ?_⟩
  · exact (h.parts p (by rwa [← hparts])).sp_eq
  · obtain ⟨-, cls, fill, hidle, -⟩ := h.parts p (by rwa [← hparts])
    exact ⟨_, hidle.map hM⟩

/-- A read of the first 40 pages. -/
def readPages : RwRequest := { cmd := { opcode := .read, slba := 0, length := 319 } }

theorem readPages_length :
    Total (convRun (fun _ => .instant) .pro64 107 4 (2 ^ 22) (fun _ => .blank) ()
      [convWriteBlocks 0 255]) fun s =>
      (mappedLpns s.device.ns readPages).length = 32 ∧ (nandReads s.device.ns readPages).length = 4 := by
  decide +kernel

/-- 32 of the pages are written, in one flash page of each partition. -/
theorem reads_cover_mapped_pro64 :
    Total (convRun (fun _ => .instant) .pro64 107 4 (2 ^ 22) (fun _ => .blank) ()
      [convWriteBlocks 0 255]) fun s =>
      (mappedLpns s.device.ns readPages).length = 32 ∧ (nandReads s.device.ns readPages).length = 4 ∧
        ReadsEach s.device.ns .pro64 (nandReads s.device.ns readPages) (mappedLpns s.device.ns readPages) := by
  have hM (_ : True) : min SsdParams.pro64.ttPgs (2 ^ 31) = min SsdParams.pro64.ttPgs (2 ^ 31) ∧
      hostLpns (nsSize (2 ^ 22) 107) 4 ≤ 2 ^ 31 := by decide +kernel
  have hrun : Spec True (convRun (fun _ => .instant) .pro64 107 4 (2 ^ 22) (fun _ => .blank) ()
      [convWriteBlocks 0 255]) _ :=
    convGeometry_pro64.run (M := True) id hM (fun _ => by decide) _ _ () (by decide +kernel)
      fun _ => by decide +kernel
  refine Total.mp ((hrun.total trivial).mono fun s hs hcount => ?_) readPages_length
  refine ⟨hcount.1, hcount.2, ?_⟩
  have hk := hs.mapsKept trivial
  have g := convGeometry_pro64.geometry
  refine (reads_cover_mapped (g.read (ssdInitParams_sectors convGeometry_pro64.params)) hk ⟨?_, ?_⟩).2
  · decide
  · have hsp := hk.sp_eq 0 hk.parts
    rw [hs.nrParts_eq, endLpn, hsp]
    decide

end Nvmev
