import NvmeVirt.Kv.Batch

/-!
# The payload of a batch

`__do_perform_kv_batch` copies the payload of a batch command into a buffer and performs the
sub-commands in it one after another. The payload has a head with the attributes of the sub-commands,
of 16 bytes each; after the head each sub-command has a head of its own, its key and its value. A key
and a value fill up a multiple of 64 bytes.

`payload` is the payload that a host makes of a list of stores. `batch_performs_stores`: the command
performs these stores, in their order.
-/

namespace Nvmev

open Outcome CInt Bytes

/-- `ALIGN_LEN`. -/
def alignLen : Nat := 64

/-- `MAX_SUB_CMD`. -/
def maxSubCmd : Nat := 8

/-- `sizeof(struct sub_cmd_attribute)`. -/
def attrSize : Nat := 16

/-- `sizeof(struct batch_cmd_head)`. -/
def batchHeadSize : Nat := 512

/-- The bytes of the variable `key`. -/
def keyBufferSize : Nat := 20

/-- The bytes at `value`. -/
def valueBufferSize : Nat := 4097

/-- `((n - 1) / ALIGN_LEN + 1) * ALIGN_LEN`. -/
def alignUp (n : Nat) : Nat := ((n - 1) / alignLen + 1) * alignLen

/-- `struct nvme_kv_batch_command`. -/
structure KvBatchCommand where
  /-- The length of the payload, in words. -/
  valueLen : Nat
  /-- The number of sub-commands, of 8 bits. -/
  rsvd4 : Nat
  prp1 : Nat := 0
  prp2 : Nat := 0
  deriving DecidableEq, Repr

/-- `cmd_value_length`. -/
def KvBatchCommand.valueLength (cmd : KvBatchCommand) : Nat := u32 (cmd.valueLen <<< 2)

/-- A stop of `__do_perform_kv_batch`. -/
inductive BatchStop where
  /-- An access outside a buffer. -/
  | overrun
  | bug (b : Bug)
  deriving DecidableEq, Repr

/-- The opcode with the code of an attribute. No more than `nvme_cmd_kv_store` matters. -/
def subOpcode (code : UInt8) : Opcode := if code = 0x81 then .kvStore else .other code.toNat

/-- The variables `opcode`, `key`, `key_len`, `value` and `val_len`. -/
structure SubCommand where
  opcode : Opcode
  key : Mem
  keyLen : Nat
  value : Mem
  valLen : Nat

/-- The attributes of sub-command `i`, and its key and value from `payload_offset` on, in a buffer of
`length` bytes; with the `payload_offset` of the next one. -/
def readSubCommand (buffer : Mem) (length i payloadOffset : Nat) :
    Except BatchStop (SubCommand × Nat) := do
  ensure (attrSize * i + attrSize ≤ length) .overrun
  let opcode := subOpcode (buffer (attrSize * i))
  let keyLen := (buffer (attrSize * i + 1)).toNat
  let valLen := readU32 buffer (attrSize * i + 4)
  let subLen := alignUp keyLen + alignUp valLen + alignLen
  let keyAt := batchHeadSize + payloadOffset
  let valueAt := keyAt + alignUp keyLen
  ensure (keyLen ≤ keyBufferSize ∧ keyAt + keyLen ≤ length) .overrun
  -- A length that is negative as an `int` is a large `size_t`.
  ensure (valLen ≤ valueBufferSize ∧ valueAt + valLen ≤ length) .overrun
  let key := copyIn (fun _ => 0) 0 (fun k => buffer (keyAt + k)) keyLen
  let value := copyIn (fun _ => 0) 0 (fun k => buffer (valueAt + k)) valLen
  pure ({ opcode, key, keyLen, value, valLen }, payloadOffset + subLen)

/-- The loop over the sub-commands, from sub-command `i` on. -/
def kvBatchLoop (buffer : Mem) (length : Nat) : Nat → Nat → Nat → KvDev → Except BatchStop KvDev
  | 0, _, _, d => .ok d
  | n + 1, i, payloadOffset, d => do
    let (sub, payloadOffset) ← readSubCommand buffer length i payloadOffset
    let d ← (doPerformKvBatchedIo d sub.opcode sub.key sub.keyLen sub.value sub.valLen).mapError .bug
    kvBatchLoop buffer length n (i + 1) payloadOffset d

/-- The buffer after the copy loop of `__do_perform_kv_batch`, which is the one of
`__do_perform_kv_io`. -/
def batchBuffer (cmd : KvBatchCommand) (host : Mem) : Mem :=
  (Prp.transfer .kmap cmd.prp1 cmd.prp2 .toStorage cmd.valueLength {} cmd.valueLength 0
    { host, storage := fun _ => 0 }).storage

/-- `__do_perform_kv_batch`. -/
def doPerformKvBatch (d : KvDev) (cmd : KvBatchCommand) : Except BatchStop (KvReply × KvDev) := do
  let d ← kvBatchLoop (batchBuffer cmd d.ms.host) cmd.valueLength (cmd.rsvd4 % 2 ^ 8) 0 alignLen d
  pure ({}, d)

/-! ## Payloads -/

/-- A store of a batch. -/
structure BatchStore where
  key : Key
  value : List UInt8
  key_le : key.length ≤ keyBufferSize
  value_le : value.length ≤ valueBufferSize
  deriving DecidableEq

namespace BatchStore

/-- `struct sub_cmd_attribute`. -/
def attr (s : BatchStore) : List UInt8 :=
  [0x81, UInt8.ofNat s.key.length, 0, 0] ++ (List.range 4).map (wordByte s.value.length) ++
    List.replicate 8 0

/-- The bytes with zeros after them, up to a multiple of `ALIGN_LEN`. -/
def padded (l : List UInt8) : List UInt8 := l ++ List.replicate (alignUp l.length - l.length) 0

/-- `struct sub_payload_format`. -/
def body (s : BatchStore) : List UInt8 := List.replicate alignLen 0 ++ padded s.key ++ padded s.value

/-- The store on the device. -/
def perform (d : KvDev) (s : BatchStore) : Except Bug KvDev :=
  doPerformKvBatchedIo d .kvStore (s.key.getD · 0) s.key.length (s.value.getD · 0) s.value.length

end BatchStore

/-- `struct payload_format` with these stores. -/
def payload (stores : List BatchStore) : List UInt8 :=
  stores.flatMap BatchStore.attr ++ List.replicate (batchHeadSize - attrSize * stores.length) 0 ++
    stores.flatMap BatchStore.body

/-- The address of byte `k` of the payload. -/
def KvBatchCommand.dataAddr (cmd : KvBatchCommand) (host : Mem) (k : Nat) : Nat :=
  Prp.dataAddr .kmap cmd.prp1 cmd.prp2 host cmd.valueLength {} cmd.valueLength k

/-- The data of the command is the payload with these stores. -/
structure Carries (cmd : KvBatchCommand) (host : Mem) (stores : List BatchStore) : Prop where
  count : cmd.rsvd4 = stores.length
  le : stores.length ≤ maxSubCmd
  fits : (payload stores).length ≤ cmd.valueLength
  data : ∀ k < (payload stores).length, host (cmd.dataAddr host k) = (payload stores).getD k 0

section

variable {cmd : KvBatchCommand} {buffer host : Mem} {s : BatchStore} {stores : List BatchStore}
  {d : KvDev} {l l' : List UInt8} {length i off a n : Nat}

/-! ## Reading a payload -/

@[simp] theorem BatchStore.length_attr (s : BatchStore) : s.attr.length = attrSize := by
  simp [attr, attrSize]

theorem le_alignUp (n : Nat) : n ≤ alignUp n := by
  unfold alignUp alignLen
  omega

@[simp] theorem BatchStore.length_padded (l : List UInt8) : (padded l).length = alignUp l.length := by
  have := le_alignUp l.length
  simp only [padded, List.length_append, List.length_replicate]
  omega

@[simp] theorem BatchStore.length_body (s : BatchStore) :
    s.body.length = alignLen + alignUp s.key.length + alignUp s.value.length := by
  simp [body, Nat.add_assoc]

/-- The bytes of two lists, one after the other. -/
theorem bytesAt_append (h : bytesAt buffer a (l ++ l').length = l ++ l') :
    bytesAt buffer a l.length = l ∧ bytesAt buffer (a + l.length) l'.length = l' := by
  rw [List.length_append, bytesAt_add] at h
  exact List.append_inj h (by simp)

theorem getD_of_bytesAt (h : bytesAt buffer a l.length = l) {k : Nat} (hk : k < l.length) :
    buffer (a + k) = l.getD k 0 := by
  have hget : (bytesAt buffer a l.length).getD k 0 = l.getD k 0 := by rw [h]
  rw [← hget]
  simp [bytesAt, hk]

theorem bytesAt_of_getD (h : ∀ k < l.length, buffer (a + k) = l.getD k 0) :
    bytesAt buffer a l.length = l := by
  refine List.ext_getElem (by simp) fun k hk hk' => ?_
  have := h k hk'
  simpa [bytesAt, hk'] using this

/-- A copy of the bytes of a list into a cleared array. -/
theorem copyIn_getD (h : bytesAt buffer a l.length = l) (hl : l.length ≤ 2 ^ 64) :
    copyIn (fun _ => 0) 0 (fun k => buffer (a + k)) l.length = (l.getD · 0) := by
  funext k
  unfold copyIn
  have hsub : k < 2 ^ 64 → sub64 k 0 = k := fun hk => by unfold sub64 u64; omega
  split
  · rename_i hk
    rw [hsub hk.1] at hk ⊢
    exact getD_of_bytesAt h hk.2
  · rename_i hk
    have hge : l.length ≤ k := by
      by_contra hlt
      exact hk ⟨by omega, by rw [hsub (by omega)]; omega⟩
    rw [List.getD_eq_getElem?_getD, List.getElem?_eq_none hge]
    rfl

/-- The attributes of a store, where a buffer has them. -/
theorem BatchStore.attr_read (s : BatchStore) (h : bytesAt buffer a s.attr.length = s.attr) :
    subOpcode (buffer a) = .kvStore ∧ (buffer (a + 1)).toNat = s.key.length ∧
      readU32 buffer (a + 4) = s.value.length := by
  have hk := s.key_le
  have hv := s.value_le
  unfold keyBufferSize at hk
  unfold valueBufferSize at hv
  have hbyte {k : Nat} (hk : k < 16) : buffer (a + k) = s.attr.getD k 0 :=
    getD_of_bytesAt h (by simpa [attrSize] using hk)
  refine ⟨?_, ?_, ?_⟩
  · have hcode : buffer (a + 0) = s.attr.getD 0 0 := hbyte (by omega)
    rw [Nat.add_zero] at hcode
    rw [hcode]
    rfl
  · rw [hbyte (by omega), show s.attr.getD 1 0 = UInt8.ofNat s.key.length from rfl,
      UInt8.toNat_ofNat', Nat.mod_eq_of_lt (by omega)]
  · rw [readU32_eq (n := s.value.length), u32_of_lt (by omega)]
    intro j hj
    rw [Nat.add_assoc, hbyte (by omega)]
    obtain rfl | rfl | rfl | rfl : j = 0 ∨ j = 1 ∨ j = 2 ∨ j = 3 := by omega
    all_goals rfl

/-- A store, where a buffer has its attributes and its body. -/
theorem readSubCommand_eq (hattr : bytesAt buffer (attrSize * i) s.attr.length = s.attr)
    (hbody : bytesAt buffer (batchHeadSize + off) s.body.length = s.body)
    (hattrs : attrSize * i + attrSize ≤ length) (hlen : batchHeadSize + off + s.body.length ≤ length) :
    readSubCommand buffer length i (off + alignLen) =
      .ok ({ opcode := .kvStore, key := (s.key.getD · 0), keyLen := s.key.length,
             value := (s.value.getD · 0), valLen := s.value.length },
        off + s.body.length + alignLen) := by
  obtain ⟨hop, hkeyLen, hvalLen⟩ := s.attr_read hattr
  have hk := s.key_le
  have hv := s.value_le
  have hle := le_alignUp s.key.length
  have hle' := le_alignUp s.value.length
  rw [s.length_body] at hlen
  -- The body has the head, the key and the value one after the other.
  obtain ⟨hheadKey, hvalue⟩ := bytesAt_append hbody
  obtain ⟨-, hkey⟩ := bytesAt_append hheadKey
  have hkey' := (bytesAt_append hkey).1
  have hvalue' := (bytesAt_append hvalue).1
  simp only [List.length_append, List.length_replicate, BatchStore.length_padded] at hkey' hvalue'
  have hkeyAt : batchHeadSize + (off + alignLen) = batchHeadSize + off + alignLen := by omega
  unfold readSubCommand
  simp only [hop, hkeyLen, hvalLen, hkeyAt]
  rw [ensure_of _ hattrs, ok_bind, ensure_of _ ⟨hk, by omega⟩, ok_bind, ensure_of _ ⟨hv, by omega⟩,
    ok_bind, copyIn_getD hkey' (by unfold keyBufferSize at hk; omega), Nat.add_assoc _ alignLen,
    copyIn_getD hvalue' (by unfold valueBufferSize at hv; omega)]
  refine congrArg Except.ok (Prod.ext rfl ?_)
  simp only [s.length_body]
  omega

/-- The loop over a payload performs its stores. -/
theorem kvBatchLoop_eq (hattrs : bytesAt buffer (attrSize * i) (stores.flatMap BatchStore.attr).length =
      stores.flatMap BatchStore.attr)
    (hbodies : bytesAt buffer (batchHeadSize + off) (stores.flatMap BatchStore.body).length =
      stores.flatMap BatchStore.body)
    (hle : attrSize * (i + stores.length) ≤ length)
    (hlen : batchHeadSize + off + (stores.flatMap BatchStore.body).length ≤ length) :
    kvBatchLoop buffer length stores.length i (off + alignLen) d =
      (stores.foldlM BatchStore.perform d).mapError .bug := by
  induction stores generalizing i off d with
  | nil => rfl
  | cons s stores ih =>
    rw [List.flatMap_cons] at hattrs hbodies hlen
    obtain ⟨hattr, hattrs'⟩ := bytesAt_append hattrs
    obtain ⟨hbody, hbodies'⟩ := bytesAt_append hbodies
    rw [List.length_append] at hlen
    rw [List.length_cons] at hle
    have hnext : attrSize * i + s.attr.length = attrSize * (i + 1) := by
      rw [s.length_attr]
      rfl
    rw [hnext] at hattrs'
    rw [List.length_cons, kvBatchLoop, readSubCommand_eq hattr hbody (by unfold attrSize at *; omega)
      (by omega), ok_bind]
    rw [List.foldlM_cons]
    change (do
      let d ← (s.perform d).mapError BatchStop.bug
      kvBatchLoop buffer length stores.length (i + 1) (off + s.body.length + alignLen) d) = _
    cases s.perform d with
    | error e => rfl
    | ok d' =>
      refine ih hattrs' ?_ (by unfold attrSize at *; omega) (by omega)
      rwa [Nat.add_assoc] at hbodies'

theorem KvBatchCommand.valueLength_lt (cmd : KvBatchCommand) : cmd.valueLength < 2 ^ 32 :=
  Nat.mod_lt _ (by decide)

theorem length_flatMap_attr (stores : List BatchStore) :
    (stores.flatMap BatchStore.attr).length = attrSize * stores.length := by
  induction stores with
  | nil => rfl
  | cons s stores ih => rw [List.flatMap_cons, List.length_append, ih, s.length_attr, List.length_cons,
      Nat.mul_succ, Nat.add_comm]

/-- The copy loop leaves the data of the command in the buffer. -/
theorem batchBuffer_eq (cmd : KvBatchCommand) (host : Mem) {k : Nat} (hk : k < cmd.valueLength) :
    batchBuffer cmd host k = host (cmd.dataAddr host k) := by
  have hlt := cmd.valueLength_lt
  unfold batchBuffer
  rw [Prp.transfer_toStorage _ _ _ _ _ _ (Nat.le_refl _) (by omega)]
  have hin (m : Mem) (f : Nat → UInt8) : copyIn m 0 f cmd.valueLength (u64 (0 + k)) = f k :=
    copyIn_add hk (by omega)
  simp only [Nat.zero_add, u64_of_lt (by omega : k < 2 ^ 64)] at hin
  exact hin (fun _ => 0) fun k => host (cmd.dataAddr host k)

/-- A batch whose data is the payload of a list of stores performs them one after another, and stops
where one of them does. -/
theorem batch_performs_stores (h : Carries cmd d.ms.host stores) :
    doPerformKvBatch d cmd = (do
      let d ← (stores.foldlM BatchStore.perform d).mapError BatchStop.bug
      pure ({}, d)) := by
  have hle := h.le
  have hfits := h.fits
  have hpay : bytesAt (batchBuffer cmd d.ms.host) 0 (payload stores).length = payload stores := by
    refine bytesAt_of_getD fun k hk => ?_
    rw [Nat.zero_add, batchBuffer_eq _ _ (by omega), h.data k hk]
  obtain ⟨hhead, hbodies⟩ := bytesAt_append hpay
  obtain ⟨hattrs, -⟩ := bytesAt_append hhead
  have hcount : cmd.rsvd4 % 2 ^ 8 = stores.length := by
    rw [h.count]
    exact Nat.mod_eq_of_lt (by unfold maxSubCmd at hle; omega)
  have hheadLen : (stores.flatMap BatchStore.attr ++
      List.replicate (batchHeadSize - attrSize * stores.length) 0).length = batchHeadSize := by
    rw [List.length_append, length_flatMap_attr, List.length_replicate]
    unfold attrSize batchHeadSize maxSubCmd at *
    omega
  rw [hheadLen, Nat.zero_add] at hbodies
  have hpayLen : (payload stores).length = batchHeadSize + (stores.flatMap BatchStore.body).length := by
    rw [payload, List.length_append, hheadLen]
  unfold doPerformKvBatch
  rw [hcount]
  have hloop : kvBatchLoop (batchBuffer cmd d.ms.host) cmd.valueLength stores.length 0 (0 + alignLen) d =
      (stores.foldlM BatchStore.perform d).mapError .bug :=
    kvBatchLoop_eq hattrs hbodies (by unfold attrSize batchHeadSize maxSubCmd at *; omega) (by omega)
  rw [Nat.zero_add] at hloop
  rw [hloop]

end

/-- A batch with the stores of two keys. -/
def twoStores : List BatchStore :=
  [{ key := [97], value := [1, 2, 3], key_le := by decide, value_le := by decide },
    { key := [98, 99], value := [4], key_le := by decide, value_le := by decide }]

/-- A host memory with the payload at address 0. -/
def payloadHost (stores : List BatchStore) : Mem := fun a => (payload stores).getD a 0

/-- The payload at address 0 is the data of a command with PRPs 0 that is no longer than a page. -/
theorem carries_payloadHost {cmd : KvBatchCommand} {stores : List BatchStore}
    (hprp : cmd.prp1 = 0) (hcount : cmd.rsvd4 = stores.length) (hle : stores.length ≤ maxSubCmd)
    (hlen : cmd.valueLength = (payload stores).length) (hpage : (payload stores).length ≤ pageSize) :
    Carries cmd (payloadHost stores) stores := by
  refine ⟨hcount, hle, by omega, fun k hk => ?_⟩
  obtain ⟨n, hn⟩ : ∃ n, cmd.valueLength = n + 1 := ⟨cmd.valueLength - 1, by omega⟩
  have hnext : Prp.nextPrp .kmap cmd.prp1 cmd.prp2 (payloadHost stores) (n + 1) {} =
      (0, { prpOffs := 1 }) := by
    rw [hprp]
    rfl
  have hsize : k < Prp.ioSize (n + 1) 0 := by
    rw [Prp.ioSize_eq]
    unfold pageSize at *
    omega
  have haddr : cmd.dataAddr (payloadHost stores) k = k := by
    unfold KvBatchCommand.dataAddr
    rw [hn, Prp.dataAddr_page hnext hsize, show Prp.dataStart .kmap 0 = 0 from rfl, Nat.zero_add]
    exact u64_of_lt (by unfold pageSize at hpage; omega)
  rw [haddr]
  rfl

theorem batch_performs_two_stores :
    doPerformKvBatch (kvInit (2 ^ 30) ⟨payloadHost twoStores, fun _ => 0⟩) { valueLen := 224, rsvd4 := 2 } =
      (do
        let d ← (twoStores.foldlM BatchStore.perform
          (kvInit (2 ^ 30) ⟨payloadHost twoStores, fun _ => 0⟩)).mapError BatchStop.bug
        pure ({}, d)) :=
  batch_performs_stores (carries_payloadHost rfl rfl (by decide) (by decide +kernel) (by decide +kernel))

end Nvmev
