import OsLab.Ext2.InodeCodec

/-!
# Inodes reloaded from disk

What `ext2_do_write_inode` stores is what a later `ext2_iget` loads.
-/

namespace OsLab.Ext2
open Bytes Bytes.Field

variable {img slab : Image} {raw : Nat} {inode : VfsInode}

/-! ### The slot -/

/-- The slot of an inode is the record of its index in the inode table of its group. -/
theorem ext2GetInode_slot {v : InodeTable} {readable : Nat → Bool} {ino : Nat}
    (found : ext2GetInode v readable ino = .ok raw) :
    let index := (ino + 2 ^ 64 - 1) % 2 ^ 64
    index / v.inodesPerGroup % 2 ^ 32 < v.groupsCount ∧
      raw = v.bgInodeTable (index / v.inodesPerGroup % 2 ^ 32) * 2 ^ v.blocksizeBits +
        index % v.inodesPerGroup * v.inodeSize := by
  unfold ext2GetInode at found
  simp only at found ⊢
  generalize (ino + 2 ^ 64 - 1) % 2 ^ 64 = index at found ⊢
  split_ifs at found with numbers beyond
  obtain rfl := Except.ok.inj found
  refine ⟨Nat.not_le.mp beyond, ?_⟩
  have split := Nat.div_add_mod (index % v.inodesPerGroup * v.inodeSize) (2 ^ v.blocksizeBits)
  rw [Nat.and_two_pow_sub_one_eq_mod, Nat.shiftRight_eq_div_pow, Nat.add_mul, Nat.add_assoc,
    Nat.mul_comm (_ / _), split]

/-- All fields that a write can assign. -/
def rawLayout : List Field :=
  [rawMode, rawUid, rawGid, rawLinksCount, rawSize, rawAtime, rawCtime, rawMtime, rawBlocks, rawDtime, rawFlags] ++
    (List.range nBlocks).map rawBlock

theorem assigned_layout (inode : VfsInode) :
    ((rawFields inode ++ rawBlockFields inode).map Prod.fst).Sublist rawLayout := by
  rw [List.map_append]
  apply List.Sublist.append (List.Sublist.refl _)
  unfold rawBlockFields
  split_ifs
  · exact (by decide : [rawBlock 0, rawBlock 1].Sublist ((List.range nBlocks).map rawBlock))
  · exact (by decide : [rawBlock 0, rawBlock 1, rawBlock 2].Sublist ((List.range nBlocks).map rawBlock))
  · rw [List.map_map]
    exact List.Sublist.refl _

theorem assigned_apart (inode : VfsInode) :
    (rawFields inode ++ rawBlockFields inode).Pairwise fun f g => Apart f.1 g.1 := by
  have layout : rawLayout.Pairwise Apart := by decide
  exact List.pairwise_map.mp (layout.sublist (assigned_layout inode))

theorem assigned_inside (inode : VfsInode) :
    ∀ field ∈ rawFields inode ++ rawBlockFields inode, field.1.off + field.1.width ≤ 128 := by
  have layout : ∀ field ∈ rawLayout, field.off + field.width ≤ 128 := by decide
  intro field member
  exact layout field.1 ((assigned_layout inode).subset (List.mem_map_of_mem member))

/-- The slot as a write leaves it. -/
def written (img : Image) (raw : Nat) (inode : VfsInode) : Image :=
  puts img raw (rawFields inode ++ rawBlockFields inode)

theorem get_written {f : Field} {x : Nat} (member : (f, x) ∈ rawFields inode ++ rawBlockFields inode)
    (small : x < 256 ^ f.width) : f.get (written img raw inode) raw = x :=
  (get_puts (assigned_apart inode) member).trans (Nat.mod_eq_of_lt small)

theorem get_field {f : Field} {x : Nat} (member : (f, x) ∈ rawFields inode) (small : x < 256 ^ f.width) :
    f.get (written img raw inode) raw = x :=
  get_written (List.mem_append_left _ member) small

/-! ### Numbers that fit -/

/-- An inode whose fields fit those of the disk. -/
structure Fits (inode : VfsInode) : Prop where
  uid : inode.iUid ≤ 65535
  gid : inode.iGid ≤ 65535
  nlink : inode.iNlink ≤ 65535
  size : 0 ≤ inode.iSize ∧ inode.iSize < 2 ^ 32
  atime : -2 ^ 31 ≤ inode.iAtime ∧ inode.iAtime < 2 ^ 31
  ctime : -2 ^ 31 ≤ inode.iCtime ∧ inode.iCtime < 2 ^ 31
  mtime : -2 ^ 31 ≤ inode.iMtime ∧ inode.iMtime < 2 ^ 31
  blocks : inode.iBlocks < 2 ^ 32
  flags : inode.iFlags < 2 ^ 32
  rdev : inode.iRdev < 2 ^ 32

theorem fsHigh2lowuid_small {uid : Nat} (small : uid ≤ 65535) : fsHigh2lowuid uid = uid := by
  have masked : uid &&& complement 0xFFFF = uid / 2 ^ 16 * 2 ^ 16 := @and_complement uid 16 (by decide) (by omega)
  have none_high : uid / 2 ^ 16 * 2 ^ 16 = 0 := by omega
  rw [fsHigh2lowuid, masked, none_high]
  rfl

theorem signed_low32 {n : Int} (fits : -2 ^ 31 ≤ n ∧ n < 2 ^ 31) : signed (low32 n) = n := by
  unfold signed low32
  split_ifs <;> omega

theorem low32_nonneg {n : Int} (fits : 0 ≤ n ∧ n < 2 ^ 32) : (low32 n : Int) = n := by
  unfold low32
  omega

theorem low32_lt (n : Int) : low32 n < 2 ^ 32 := by
  unfold low32
  omega

/-! ### Loading what was written -/

/-- The fields of the disk that both kinds of inode share. -/
structure SameFields (inode inode' : VfsInode) : Prop where
  mode : inode'.iMode = inode.iMode
  uid : inode'.iUid = inode.iUid
  gid : inode'.iGid = inode.iGid
  nlink : inode'.iNlink = inode.iNlink
  size : inode'.iSize = inode.iSize
  atime : inode'.iAtime = inode.iAtime
  ctime : inode'.iCtime = inode.iCtime
  mtime : inode'.iMtime = inode.iMtime
  blocks : inode'.iBlocks = inode.iBlocks

theorem fillInode_mode (ino : Nat) : (fillInode (written img raw inode) slab raw ino).iMode = inode.iMode := by
  have stored : rawMode.get (written img raw inode) raw = inode.iMode.toNat :=
    get_field (by simp [rawFields]) inode.iMode.toNat_lt
  simp only [fillInode, stored, UInt16.ofNat_toNat]

theorem fillInode_blocks (small : inode.iBlocks < 2 ^ 32) (ino : Nat) :
    (fillInode (written img raw inode) slab raw ino).iBlocks = inode.iBlocks :=
  (get_field (by simp [rawFields]) small : rawBlocks.get _ raw = _)

theorem fillInode_written (fits : Fits inode) (ino : Nat) :
    SameFields inode (fillInode (written img raw inode) slab raw ino) where
  mode := fillInode_mode ino
  uid := by
    have small := fits.uid
    have stored : rawUid.get (written img raw inode) raw = inode.iUid :=
      get_field (by simp [rawFields, fsHigh2lowuid_small small]) (show inode.iUid < 256 ^ 2 by omega)
    exact stored
  gid := by
    have small := fits.gid
    have stored : rawGid.get (written img raw inode) raw = inode.iGid :=
      get_field (by simp [rawFields, fsHigh2lowuid_small small]) (show inode.iGid < 256 ^ 2 by omega)
    exact stored
  nlink := by
    have small := fits.nlink
    have stored : rawLinksCount.get (written img raw inode) raw = inode.iNlink :=
      get_field (by simp [rawFields]) (show inode.iNlink < 256 ^ 2 by omega)
    exact stored
  size := by
    have stored : rawSize.get (written img raw inode) raw = low32 inode.iSize :=
      get_field (by simp [rawFields]) (low32_lt _)
    simp only [fillInode, stored]
    exact low32_nonneg fits.size
  atime := by
    have stored : rawAtime.get (written img raw inode) raw = low32 inode.iAtime :=
      get_field (by simp [rawFields]) (low32_lt _)
    simp only [fillInode, stored]
    exact signed_low32 fits.atime
  ctime := by
    have stored : rawCtime.get (written img raw inode) raw = low32 inode.iCtime :=
      get_field (by simp [rawFields]) (low32_lt _)
    simp only [fillInode, stored]
    exact signed_low32 fits.ctime
  mtime := by
    have stored : rawMtime.get (written img raw inode) raw = low32 inode.iMtime :=
      get_field (by simp [rawFields]) (low32_lt _)
    simp only [fillInode, stored]
    exact signed_low32 fits.mtime
  blocks := fillInode_blocks fits.blocks ino

/-- The device number that is stored is the one that is read. -/
theorem special_rdev (fits : Fits inode) (device : sIsChr inode.iMode || sIsBlk inode.iMode) :
    (if (rawBlock 0).get (written img raw inode) raw ≠ 0 then
      oldDecodeDev ((rawBlock 0).get (written img raw inode) raw)
    else newDecodeDev ((rawBlock 1).get (written img raw inode) raw)) = inode.iRdev := by
  cases valid : oldValidDev inode.iRdev with
  | true =>
    have blocks : rawBlockFields inode = [(rawBlock 0, oldEncodeDev inode.iRdev), (rawBlock 1, 0)] := by
      rw [rawBlockFields, if_pos device, if_pos valid]
    have small := old_encode_lt valid
    have first : (rawBlock 0).get (written img raw inode) raw = oldEncodeDev inode.iRdev :=
      get_written (by simp [blocks]) (show oldEncodeDev inode.iRdev < 256 ^ 4 by omega)
    have second : (rawBlock 1).get (written img raw inode) raw = 0 := get_written (by simp [blocks]) (by decide)
    rw [first, second]
    split_ifs with nonzero
    · exact old_decode_encode valid
    · exact (old_encode_zero valid (not_not.mp nonzero)).symm
  | false =>
    have blocks : rawBlockFields inode =
        [(rawBlock 0, 0), (rawBlock 1, newEncodeDev inode.iRdev), (rawBlock 2, 0)] := by
      rw [rawBlockFields, if_pos device, if_neg (by simp [valid])]
    have first : (rawBlock 0).get (written img raw inode) raw = 0 := get_written (by simp [blocks]) (by decide)
    have second : (rawBlock 1).get (written img raw inode) raw = newEncodeDev inode.iRdev :=
      get_written (by simp [blocks]) (new_encode_lt fits.rdev)
    rw [first, second, if_neg (by decide)]
    exact new_decode_encode fits.rdev

theorem device_type {mode : UInt16} (device : sIsChr mode || sIsBlk mode) :
    sIsReg mode = false ∧ sIsDir mode = false ∧ sIsLnk mode = false := by
  unfold sIsChr sIsBlk at device
  unfold sIsReg sIsDir sIsLnk
  rw [Bool.or_eq_true, beq_iff_eq, beq_iff_eq] at device
  rcases device with type | type <;> rw [type] <;> decide

/-- The branches of the load, on an inode that is not a fast symlink. -/
theorem setOperations_written (fits : Fits inode) {inode' : VfsInode} (same : SameFields inode inode')
    (slow : inode.isFastSymlink = false) :
    ∃ inode'', setOperations (written img raw inode) raw none inode' = some inode'' ∧ SameFields inode inode'' ∧
      (sIsChr inode.iMode || sIsBlk inode.iMode → inode''.iRdev = inode.iRdev) := by
  have slow' : inode'.isFastSymlink = false := by
    rw [VfsInode.isFastSymlink, same.mode, same.blocks]
    exact slow
  unfold setOperations
  rw [same.mode, slow']
  by_cases device : (sIsChr inode.iMode || sIsBlk inode.iMode) = true
  · obtain ⟨reg, dir, lnk⟩ := device_type device
    have special (rdev : Nat) : initSpecialInode inode' rdev = { inode' with iRdev := rdev } := by
      rw [initSpecialInode, same.mode, if_pos device]
    have rdev := @special_rdev img raw inode fits device
    refine ⟨{ inode' with iRdev := inode.iRdev }, ?_, { same with }, fun _ => rfl⟩
    simp only [reg, dir, lnk, Bool.false_eq_true, if_false]
    split_ifs at rdev ⊢ with nonzero
    all_goals rw [special, rdev]
  · have special (rdev : Nat) : initSpecialInode inode' rdev = inode' := by
      rw [initSpecialInode, same.mode, if_neg device]
    refine ⟨inode', ?_, same, fun here => absurd here device⟩
    simp only [special, Bool.false_eq_true, if_false]
    split_ifs <;> rfl

/-! ### The round trip -/

/-- What an inode must be after it is loaded again. -/
structure Reloaded (inode inode' : VfsInode) : Prop extends SameFields inode inode' where
  flags : inode'.iFlags = inode.iFlags
  data : ¬ (sIsChr inode.iMode || sIsBlk inode.iMode) → ∀ n < nBlocks,
    (dataWord n).get inode'.iData 0 = (dataWord n).get inode.iData 0
  rdev : sIsChr inode.iMode || sIsBlk inode.iMode → inode'.iRdev = inode.iRdev

theorem loadedWords_apart (words : Nat → Nat) :
    ((List.range nBlocks).map fun n => (dataWord n, words n)).Pairwise fun f g => Apart f.1 g.1 := by
  have layout : ((List.range nBlocks).map dataWord).Pairwise Apart := by decide
  rw [List.pairwise_map] at layout ⊢
  exact layout

/-- The slot behind a write, the old content that it keeps included. -/
theorem ext2DoWriteInode_eq {v : InodeTable} {readable : Nat → Bool} (found : ext2GetInode v readable inode.iIno = .ok raw)
    (syncFails : Bool) (img : Image) : ∃ old, (ext2DoWriteInode v readable syncFails img inode).2.1 = written old raw inode ∧
      ∀ k, k < raw ∨ raw + v.inodeSize ≤ k → old k = img k := by
  simp only [ext2DoWriteInode, found]
  refine ⟨if inode.isNew then Bytes.write img raw (List.replicate v.inodeSize 0) else img, rfl, fun k outside => ?_⟩
  split_ifs
  · exact write_outside (by rwa [List.length_replicate])
  · rfl

theorem ext2Iget_written {v : InodeTable} {readable : Nat → Bool} (found : ext2GetInode v readable inode.iIno = .ok raw)
    (fits : Fits inode) (slow : inode.isFastSymlink = false) (old slab : Image) :
    ∃ inode', ext2Iget v readable slab (written old raw inode) inode.iIno = .loaded inode' ∧ Reloaded inode inode' := by
  have same : SameFields inode (fillInode (written old raw inode) slab raw inode.iIno) := fillInode_written fits _
  obtain ⟨inode'', operations, same', rdev⟩ := @setOperations_written old raw inode fits _ same slow
  have nonneg : ¬ (fillInode (written old raw inode) slab raw inode.iIno).iSize < 0 := by
    rw [same.size]
    exact not_lt.mpr fits.size.1
  unfold ext2Iget
  simp only [found, if_neg nonneg, operations]
  refine ⟨_, rfl, { same' with flags := ?_, data := ?_, rdev := rdev }⟩
  · exact get_field (by simp [rawFields]) fits.flags
  · intro ordinary n inside
    have blocks : rawBlockFields inode = (List.range nBlocks).map fun n => (rawBlock n, (dataWord n).get inode.iData 0) := by
      rw [rawBlockFields, if_neg ordinary]
    have stored : (rawBlock n).get (written old raw inode) raw = (dataWord n).get inode.iData 0 := by
      apply get_written
      · rw [blocks]
        exact List.mem_append_right _ (List.mem_map.mpr ⟨n, List.mem_range.mpr inside, rfl⟩)
      · exact get_lt
    have copied := @get_puts inode''.iData 0 (dataWord n) _ _
      (loadedWords_apart fun n => (rawBlock n).get (written old raw inode) raw)
      (List.mem_map.mpr ⟨n, List.mem_range.mpr inside, rfl⟩)
    rw [stored, Nat.mod_eq_of_lt get_lt] at copied
    exact copied

/-- A write and a load give back the inode, whatever the slot held, and change no other byte. -/
theorem inode_reloaded (v : MountedTable) (readable : Nat → Bool) (syncFails : Bool) (img slab : Image)
    (inode : VfsInode) {raw : Nat} (found : ext2GetInode v.toInodeTable readable inode.iIno = .ok raw)
    (kind : inode.isFastSymlink = false) (fits : Fits inode) :
    let img' := (ext2DoWriteInode v.toInodeTable readable syncFails img inode).2.1
    (∃ inode', ext2Iget v.toInodeTable readable slab img' inode.iIno = .loaded inode' ∧ Reloaded inode inode') ∧
      ∀ k, k < raw ∨ raw + v.inodeSize ≤ k → img' k = img k := by
  obtain ⟨old, same, outside⟩ := ext2DoWriteInode_eq found syncFails img
  have sized := v.sized
  rw [same]
  refine ⟨ext2Iget_written found fits kind old slab, fun k apart => ?_⟩
  have kept : written old raw inode k = old k := puts_outside (assigned_inside inode) (by omega)
  exact kept.trans (outside k apart)

/-- The last inode of a volume of one group. -/
def sampleTable : MountedTable :=
  ⟨⟨10, 1, 16, 128, 11, 16, fun _ => 5⟩, by decide, by decide⟩

/-- A device node whose number needs the new encoding. -/
def sampleDevice : VfsInode where
  iIno := 16
  iMode := 0x21A4
  iUid := 1000
  iGid := 100
  iNlink := 1
  iSize := 0
  iAtime := -5
  iCtime := 1700000000
  iMtime := 1700000000
  iBlocks := 0
  iRdev := mkdev 8 300
  iLink := false
  iDtime := 0
  iFlags := 0
  isNew := true
  iBlockGroup := 0
  iData := fun _ => 0

theorem inode_reloaded_device :
    let img' := (ext2DoWriteInode sampleTable.toInodeTable (fun _ => true) false (fun _ => 0xFF) sampleDevice).2.1
    (∃ inode', ext2Iget sampleTable.toInodeTable (fun _ => true) (fun _ => 0xEE) img' 16 = .loaded inode' ∧
      Reloaded sampleDevice inode') ∧ ∀ k, k < 7040 ∨ 7040 + 128 ≤ k → img' k = 0xFF :=
  inode_reloaded sampleTable (fun _ => true) false (fun _ => 0xFF) (fun _ => 0xEE) sampleDevice rfl (by decide)
    ⟨by decide, by decide, by decide, by decide, by decide, by decide, by decide, by decide, by decide, by decide⟩

end OsLab.Ext2
