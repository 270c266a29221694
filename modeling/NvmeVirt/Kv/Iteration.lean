import NvmeVirt.Kv.Handles

/-!
# Iterations

A read of an iterator goes on at the slot where the last one stopped: at the key that no longer
fitted into the buffer, which takes 51 keys. It reports the end when it has come past the last slot.
Whatever the mapping table holds, the reads of a new iterator list the keys that it selects, each
once and in the order of their slots, and come to the end (`iteration_complete`).
-/

namespace Nvmev

open Function Outcome CInt Bytes

/-! ## What the buffers are to hold -/

/-- A number as a 32-bit word. -/
def wordBytes (n : Nat) : List UInt8 := (List.range 4).map (wordByte n)

/-- The record of a key. -/
def recordBytes (key : Key) : List UInt8 := wordBytes iterKeylen ++ key

/-- A buffer with the records of `keys`. -/
def iterBuffer (keys : List Key) : List UInt8 := wordBytes keys.length ++ keys.flatMap recordBytes

/-- The bytes of the key that a record has. -/
def MappingEntry.recordKey (e : MappingEntry) : Key := (List.range iterKeylen).map e.key

/-- The keys that an iterator selects in the slots from `a` on and before `b`. -/
def selectedKeys (t : Nat → MappingEntry) (c : KvIterContext) (a b : Nat) : List Key :=
  ((List.range' a (b - a)).filter fun i => c.selects (t i)).map fun i => (t i).recordKey

/-- A command, its reply, and the device before and after it. -/
structure IterCall where
  cmd : KvIterCommand
  reply : KvReply
  before : KvIterDev
  after : KvIterDev

/-- The commands one after the other. -/
def iterCalls (d : KvIterDev) : List KvIterCommand → Except Bug (List IterCall)
  | [] => .ok []
  | cmd :: cmds => do
    let (reply, d') ← doPerformKvIterIo d cmd
    let calls ← iterCalls d' cmds
    pure ({ cmd, reply, before := d, after := d' } :: calls)

namespace IterCall

/-- The bytes of the buffer of the iterator that the call transfers. -/
def buffer (call : IterCall) : List UInt8 :=
  match call.after.iterHandle call.cmd.handle with
  | .context c => bytesAt c.buf 0 call.reply.result
  | _ => []

/-- If the PRPs describe a buffer of 1024 bytes, the host finds these bytes in it. -/
def Delivered (call : IterCall) : Prop :=
  Prp.IsBuffer .kmap call.cmd.prp1 call.cmd.prp2 call.before.dev.ms.host 1024 {} 1024 →
    (List.range call.reply.result).map (fun k => call.after.dev.ms.host
      (Prp.dataAddr .kmap call.cmd.prp1 call.cmd.prp2 call.before.dev.ms.host 1024 {} 1024 k)) =
    call.buffer

end IterCall

/-- The calls return `keys`, in buffers of at most 1024 bytes, and the last one reports the end. -/
structure ListsKeys (keys : List Key) (calls : List IterCall) : Prop where
  buffers : ∃ chunks : List (List Key), calls.map (·.buffer) = chunks.map iterBuffer ∧
    chunks.flatten = keys
  short : ∀ call ∈ calls, call.reply.result = call.buffer.length ∧ call.buffer.length ≤ 1024
  delivered : ∀ call ∈ calls, call.Delivered
  status : ∃ n, calls.map (·.reply.status) = List.replicate n (some Sc.success) ++ [some kvIterEnd]

section

variable {t : Nat → MappingEntry} {c : KvIterContext} {a b n : Nat} {s : IterScan}

theorem selectedKeys_self (t : Nat → MappingEntry) (c : KvIterContext) (a : Nat) :
    selectedKeys t c a a = [] := by
  simp [selectedKeys]

theorem selectedKeys_split (hab : a ≤ b) (hbn : b ≤ n) :
    selectedKeys t c a b ++ selectedKeys t c b n = selectedKeys t c a n := by
  obtain ⟨i, rfl⟩ := Nat.exists_eq_add_of_le hab
  obtain ⟨j, rfl⟩ := Nat.exists_eq_add_of_le hbn
  unfold selectedKeys
  rw [← List.map_append, ← List.filter_append, show a + i - a = i by omega,
    show a + i + j - (a + i) = j by omega, show a + i + j - a = i + j by omega,
    ← List.range'_append_1]

theorem selectedKeys_succ (hab : a ≤ b) :
    selectedKeys t c a (b + 1) =
      selectedKeys t c a b ++ if c.selects (t b) then [(t b).recordKey] else [] := by
  rw [← selectedKeys_split hab (Nat.le_succ b)]
  congr 1
  unfold selectedKeys
  rw [show b + 1 - b = 1 by omega]
  split <;> simp_all

@[simp] theorem length_recordBytes (e : MappingEntry) : (recordBytes e.recordKey).length = 20 := by
  simp [recordBytes, wordBytes, MappingEntry.recordKey, iterKeylen]

/-! ## The loop of a read -/

/-- The buffer holds the records of the keys selected from slot `a` on and before the position. -/
structure Scanned (t : Nat → MappingEntry) (c : KvIterContext) (a : Nat) (s : IterScan) : Prop where
  start : a ≤ s.pos
  nrKeys : s.nrKeys = (selectedKeys t c a s.pos).length
  offset : s.bufOffset = 4 + 20 * s.nrKeys
  few : s.nrKeys ≤ 51
  records : bytesAt s.buf 4 (20 * s.nrKeys) = (selectedKeys t c a s.pos).flatMap recordBytes

theorem scanned_start (t : Nat → MappingEntry) (c : KvIterContext) (a : Nat) (buf : Mem) :
    Scanned t c a { pos := a, buf } :=
  ⟨Nat.le_refl a, by simp [selectedKeys_self], rfl, by simp, by simp [selectedKeys_self, bytesAt]⟩

@[simp] theorem turn_pos (s : IterScan) (c : KvIterContext) (e : MappingEntry) :
    (s.turn c e).pos = s.pos + 1 := by
  unfold IterScan.turn
  split <;> rfl

@[simp] theorem turn_reachedEnd (s : IterScan) (c : KvIterContext) (e : MappingEntry) :
    (s.turn c e).reachedEnd = s.reachedEnd := by
  unfold IterScan.turn
  split <;> rfl

/-- A slot that the iterator does not select. -/
theorem Scanned.skip (h : Scanned t c a s) (hsel : ¬ c.selects (t s.pos)) :
    Scanned t c a (s.turn c (t s.pos)) := by
  have hkeys : selectedKeys t c a (s.pos + 1) = selectedKeys t c a s.pos := by
    rw [selectedKeys_succ h.start, if_neg hsel, List.append_nil]
  unfold IterScan.turn
  rw [if_neg hsel]
  exact ⟨Nat.le_succ_of_le h.start, by rw [hkeys]; exact h.nrKeys, h.offset, h.few,
    by rw [hkeys]; exact h.records⟩

/-- A record comes behind the bytes that are there: the length of the key, and the key. -/
theorem bytesAt_record (e : MappingEntry) {n : Nat} (hn : s.bufOffset = 4 + n)
    (hle : s.bufOffset ≤ 1024) :
    bytesAt (s.record e).buf 4 (n + (4 + iterKeylen)) = bytesAt s.buf 4 n ++ recordBytes e.recordKey := by
  unfold IterScan.record recordBytes iterKeylen
  rw [bytesAt_add, bytesAt_add, ← hn]
  congr 1
  · rw [bytesAt_copyIn_apart _ _ (by omega) (by omega), bytesAt_copyIn_apart _ _ (by omega) (by omega)]
  congr 1
  · rw [bytesAt_copyIn_apart _ _ (by omega) (by omega), bytesAt_copyIn _ _ (by omega)]
    rfl
  · rw [bytesAt_copyIn _ _ (by omega)]
    rfl

/-- A slot that the iterator selects, with room for its key. -/
theorem Scanned.record (h : Scanned t c a s) (hsel : c.selects (t s.pos)) (hroom : s.nrKeys < 51) :
    Scanned t c a (s.turn c (t s.pos)) := by
  have hoff := h.offset
  have hkeys : selectedKeys t c a (s.pos + 1) = selectedKeys t c a s.pos ++ [(t s.pos).recordKey] := by
    rw [selectedKeys_succ h.start, if_pos hsel]
  unfold IterScan.turn
  rw [if_pos hsel]
  refine ⟨Nat.le_succ_of_le h.start, ?_, ?_, hroom, ?_⟩
  · simp only [IterScan.record, hkeys, List.length_append, List.length_singleton]
    rw [h.nrKeys]
  · simp only [IterScan.record, iterKeylen]
    omega
  · have hnr : 20 * (s.nrKeys + 1) = 20 * s.nrKeys + (4 + iterKeylen) := by
      unfold iterKeylen
      omega
    change bytesAt (s.record (t s.pos)).buf 4 (20 * (s.nrKeys + 1)) =
      (selectedKeys t c a (s.pos + 1)).flatMap recordBytes
    rw [hnr, bytesAt_record _ hoff (by omega), h.records, hkeys]
    simp

/-- The loop comes past the last slot, or to a key that does not fit after 51 ones. -/
theorem Scanned.loop {fuel : Nat} (h : Scanned t c a s) (hend : s.reachedEnd = false)
    (hpos : s.pos < hashSlots) (hf : hashSlots - s.pos ≤ fuel) :
    Scanned t c a (iterScan t c fuel s) ∧
      ((iterScan t c fuel s).reachedEnd = true ∧ (iterScan t c fuel s).pos = hashSlots ∨
        (iterScan t c fuel s).reachedEnd = false ∧ (iterScan t c fuel s).pos < hashSlots ∧
          (iterScan t c fuel s).nrKeys = 51) := by
  induction fuel generalizing s with
  | zero => omega
  | succ fuel ih =>
    have hoff := h.offset
    have hfew := h.few
    unfold iterScan
    rw [if_neg (by omega)]
    by_cases hfull : c.selects (t s.pos) ∧ s.bufOffset + 4 + iterKeylen > 1024
    · rw [if_pos hfull]
      have := hfull.2
      unfold iterKeylen at this
      exact ⟨h, .inr ⟨hend, hpos, by omega⟩⟩
    rw [if_neg hfull]
    have hturn : Scanned t c a (s.turn c (t s.pos)) := by
      by_cases hsel : c.selects (t s.pos)
      · simp only [hsel, true_and, iterKeylen] at hfull
        exact h.record hsel (by omega)
      · exact h.skip hsel
    simp only []
    split
    · rename_i hlast
      exact ⟨⟨hturn.start, hturn.nrKeys, hturn.offset, hturn.few, hturn.records⟩, .inl ⟨rfl, hlast⟩⟩
    · rename_i hlast
      rw [turn_pos] at hlast
      exact ih hturn (by simpa using hend) (by rw [turn_pos]; omega) (by rw [turn_pos]; omega)

/-! ## One read -/

/-- A transfer of at most 1024 bytes to a buffer of 1024 bytes. -/
theorem transfer_delivers {prp1 prp2 : Nat} {ms : Prp.Memories} (hn : n ≤ 1024)
    (hbuf : Prp.IsBuffer .kmap prp1 prp2 ms.host 1024 {} 1024) :
    (List.range n).map (fun k => (Prp.transfer .kmap prp1 prp2 .toHost n {} n 0 ms).host
      (Prp.dataAddr .kmap prp1 prp2 ms.host 1024 {} 1024 k)) = bytesAt ms.storage 0 n := by
  have hform : Prp.SameForm prp1 n 1024 := by
    refine .inr ⟨fun h => ?_, fun h => ?_⟩ <;> · unfold pageSize at h; omega
  have hfollows : Prp.Follows .kmap prp1 prp2 ms.host {} n 1024 := Prp.follows_of_sameForm hn hform
  have hshort : Prp.IsBuffer .kmap prp1 prp2 ms.host n {} n :=
    hbuf.shorter hn hform (Nat.le_refl _) (Nat.le_refl _)
  refine List.map_congr_left fun k hk => ?_
  have hk := List.mem_range.mp hk
  have hin := (Prp.transfer_toHost 0 ms hshort (Nat.le_refl _) (by omega)).1 k hk
  rw [(hfollows n 1024 (Nat.le_refl _) (Nat.le_refl _)).1 k hk] at hin
  rw [hin, u64_of_lt (by omega)]

/-- What a read does with the context `c` of its handle, which becomes `c'`. -/
structure Reads (c c' : KvIterContext) (call : IterCall) : Prop where
  table : call.after.dev.ftl.table = call.before.dev.ftl.table
  context : call.after.iterHandle call.cmd.handle = .context c'
  selects : c'.selects = c.selects
  start : c.currentPos ≤ c'.currentPos
  buffer : call.buffer =
    iterBuffer (selectedKeys call.before.dev.ftl.table c c.currentPos c'.currentPos)
  short : call.reply.result = call.buffer.length ∧ call.buffer.length ≤ 1024
  delivered : call.Delivered
  status : call.reply.status = some kvIterEnd ∧ c'.currentPos = hashSlots ∨
    call.reply.status = some Sc.success ∧ c.currentPos < c'.currentPos ∧ c'.currentPos < hashSlots

variable {d d' : KvIterDev} {cmd : KvIterCommand}

theorem kvIterRead_spec (hctx : d.iterHandle cmd.handle = .context c)
    (hh : cmd.handle < nrIterHandles) (hpos : c.currentPos < hashSlots) :
    Total (kvIterRead d cmd) fun (reply, d') =>
      ∃ c', Reads c c' { cmd, reply, before := d, after := d' } := by
  obtain ⟨hs, hend⟩ := (scanned_start d.dev.ftl.table c c.currentPos c.buf).loop rfl hpos
    (Nat.sub_le _ _)
  unfold kvIterRead
  simp only [hctx, if_neg (Nat.not_le.mpr hh)]
  generalize iterScan d.dev.ftl.table c hashSlots { pos := c.currentPos, buf := c.buf } = s at hs hend
  have hoff := hs.offset
  have hfew := hs.few
  have hbuf : bytesAt (copyIn s.buf 0 (wordByte s.nrKeys) 4) 0 s.bufOffset =
      iterBuffer (selectedKeys d.dev.ftl.table c c.currentPos s.pos) := by
    rw [hoff, bytesAt_add, bytesAt_copyIn _ _ (by omega),
      bytesAt_copyIn_apart _ _ (by omega) (by omega), Nat.zero_add, hs.records, hs.nrKeys]
    rfl
  have hcall (reply : KvReply) (dev : KvDev) (hres : reply.result = s.bufOffset) :
      IterCall.buffer { cmd, reply, before := d, after :=
        { dev, iterHandle := update d.iterHandle cmd.handle (.context { c with
          currentPos := s.pos, buf := copyIn s.buf 0 (wordByte s.nrKeys) 4 }) } } =
      bytesAt (copyIn s.buf 0 (wordByte s.nrKeys) 4) 0 s.bufOffset := by
    simp [IterCall.buffer, hres]
  refine .ret ⟨_, rfl, update_self _ _ _, rfl, hs.start, ?_, ?_, fun hdeliver => ?_, ?_⟩
  · rw [hcall _ _ rfl, hbuf]
  · rw [hcall _ _ rfl, length_bytesAt]
    exact ⟨rfl, by omega⟩
  · rw [hcall _ _ rfl]
    exact transfer_delivers (by omega) hdeliver
  · rcases hend with ⟨hlast, hp⟩ | ⟨hlast, hp, hnr⟩
    · exact .inl ⟨by simp [hlast], hp⟩
    · refine .inr ⟨by simp [hlast, Sc.success], ?_, hp⟩
      refine Nat.lt_of_le_of_ne hs.start fun heq => ?_
      change c.currentPos = s.pos at heq
      have hkeys := hs.nrKeys
      rw [← heq, selectedKeys_self] at hkeys
      simp [hnr] at hkeys

/-! ## Runs of reads -/

theorem selectedKeys_congr {c' : KvIterContext} (h : c'.selects = c.selects) :
    selectedKeys t c' = selectedKeys t c := by
  unfold selectedKeys
  rw [h]

/-- The last read of an iteration. -/
theorem ListsKeys.single {keys : List Key} {call : IterCall} (hbuf : call.buffer = iterBuffer keys)
    (hshort : call.reply.result = call.buffer.length ∧ call.buffer.length ≤ 1024)
    (hdel : call.Delivered) (hst : call.reply.status = some kvIterEnd) : ListsKeys keys [call] where
  buffers := ⟨[keys], by simp [hbuf], by simp⟩
  short := by simpa using hshort
  delivered := by simpa using hdel
  status := ⟨0, by simp [hst]⟩

/-- A read before the other ones. -/
theorem ListsKeys.cons {keys keys' : List Key} {call : IterCall} {calls : List IterCall}
    (h : ListsKeys keys' calls) (hbuf : call.buffer = iterBuffer keys)
    (hshort : call.reply.result = call.buffer.length ∧ call.buffer.length ≤ 1024)
    (hdel : call.Delivered) (hst : call.reply.status = some Sc.success) :
    ListsKeys (keys ++ keys') (call :: calls) where
  buffers := by
    obtain ⟨chunks, hchunks, hkeys⟩ := h.buffers
    exact ⟨keys :: chunks, by simp [hbuf, hchunks], by simp [hkeys]⟩
  short := List.forall_mem_cons.mpr ⟨hshort, h.short⟩
  delivered := List.forall_mem_cons.mpr ⟨hdel, h.delivered⟩
  status := by
    obtain ⟨n, hn⟩ := h.status
    exact ⟨n + 1, by simp [hst, hn, List.replicate_succ]⟩

/-- From every position on, the reads come to the end. -/
theorem iterCalls_listsKeys {cmds : Nat → KvIterCommand} {h m : Nat} (hh : h < nrIterHandles)
    (hctx : d.iterHandle h = .context c) (hpos : c.currentPos < hashSlots)
    (hm : hashSlots - c.currentPos ≤ m)
    (hcmds : ∀ i, (cmds i).opcode = .kvIterRead ∧ (cmds i).handle = h) :
    ∃ n, Total (iterCalls d ((List.range n).map cmds))
      (ListsKeys (selectedKeys d.dev.ftl.table c c.currentPos hashSlots)) := by
  induction m generalizing d c cmds with
  | zero => omega
  | succ m ih =>
    obtain ⟨hop, hcmd⟩ := hcmds 0
    obtain ⟨⟨reply, d'⟩, hread, c', hr⟩ :
        Total (kvIterRead d (cmds 0)) fun (reply, d') =>
          ∃ c', Reads c c' { cmd := cmds 0, reply, before := d, after := d' } :=
      kvIterRead_spec (by rw [hcmd]; exact hctx) (by rw [hcmd]; exact hh) hpos
    have hfirst : doPerformKvIterIo d (cmds 0) = .ok (reply, d') := by
      unfold doPerformKvIterIo
      rw [hop]
      exact hread
    rcases hr.status with ⟨hst, hend⟩ | ⟨hst, hlt, hin⟩
    · -- the end
      refine ⟨1, [_], ?_, .single ?_ hr.short hr.delivered hst⟩
      · simp only [List.range_one, List.map_cons, List.map_nil, iterCalls, hfirst, ok_bind]
        rfl
      · rw [hr.buffer, hend]
    · -- the next read goes on at the new position
      have hctx' : d'.iterHandle h = .context c' := by
        rw [← hcmd]
        exact hr.context
      obtain ⟨n, calls, hcalls, hlists⟩ := ih hctx' hin (by omega) fun i => hcmds (i + 1)
      refine ⟨n + 1, { cmd := cmds 0, reply, before := d, after := d' } :: calls, ?_, ?_⟩
      · rw [List.range_succ_eq_map, List.map_cons, List.map_map, iterCalls, hfirst, ok_bind]
        change (iterCalls d' ((List.range n).map fun i => cmds (i + 1)) >>= _) = _
        rw [hcalls]
        rfl
      · have htable : d'.dev.ftl.table = d.dev.ftl.table := hr.table
        rw [htable, selectedKeys_congr hr.selects] at hlists
        have hall := hlists.cons hr.buffer hr.short hr.delivered hst
        rwa [selectedKeys_split hr.start (Nat.le_of_lt hin)] at hall

/-- Whatever the mapping table holds, finitely many reads of a new iterator come to the end. Their
buffers list the keys in the used slots that match the prefix, each once and in the order of the
slots. -/
theorem iteration_complete (hop : cmd.isOpen) {h : Nat}
    (hopen : doPerformKvIterIo d cmd = .ok ({ status := some Sc.success, result := h }, d'))
    {reads : Nat → KvIterCommand}
    (hreads : ∀ i, (reads i).opcode = .kvIterRead ∧ (reads i).handle = h) :
    ∃ n, Total (iterCalls d' ((List.range n).map reads))
      (ListsKeys (selectedKeys d.dev.ftl.table (.opened cmd) 0 hashSlots)) := by
  rw [doPerformKvIterIo_open hop, Except.ok.injEq] at hopen
  rcases kvIterOpen_cases d cmd with ⟨i, -, h16, -, heq⟩ | ⟨-, heq⟩
  · rw [heq] at hopen
    cases hopen
    have hslots : 0 < hashSlots := by decide
    exact iterCalls_listsKeys (Nat.lt_succ_of_le h16) (update_self _ _ _) hslots (Nat.le_refl _) hreads
  · rw [heq] at hopen
    cases hopen

end

/-- A device with a key in the first slot and one in the last. -/
def firstAndLast : KvIterDev :=
  let d := kvIterInit (2 ^ 30) ⟨fun _ => 0, fun _ => 0⟩ false
  let table i := { d.dev.ftl.table i with
    memOffset := if i = 0 then 0 else if i = hashSlots - 1 then 4 else noOffset }
  { d with dev := { d.dev with ftl := { d.dev.ftl with table } } }

theorem iteration_complete_last :
    ∃ n, Total (iterCalls (kvIterOpen firstAndLast openAll).2
        ((List.range n).map fun _ => { opcode := .kvIterRead, iterHandle := 1 }))
      (ListsKeys (selectedKeys firstAndLast.dev.ftl.table (.opened openAll) 0 hashSlots)) :=
  iteration_complete rfl rfl fun _ => ⟨rfl, rfl⟩

end Nvmev
