import OsLab.Ext2.Super

/-!
# The descriptor table

Where a mount finds the group descriptors. `descriptor_loc` takes `s_first_meta_bg` for the
start of a META_BG layout on volumes that have none.
-/

namespace OsLab.Ext2
open Bytes Bytes.Field

/-! ### What an accepted volume has -/

theorem bind_ok {α β : Type} {x : Except Int α} {f : α → Except Int β} {b : β} (done : x >>= f = .ok b) :
    ∃ a, x = .ok a ∧ f a = .ok b := by
  cases x with
  | error err => cases done
  | ok a => exact ⟨a, rfl, done⟩

theorem ensure_bind_ok {α : Type} {condition : Bool} {err : Int} {f : Unit → Except Int α} {a : α}
    (done : ensure condition err >>= f = .ok a) : condition = true ∧ f () = .ok a := by
  cases condition with
  | true => exact ⟨rfl, done⟩
  | false => cases done

structure Accepted (sbi : SbInfo) : Prop where
  block : sbi.blocksize = 1024 ∨ sbi.blocksize = 2048 ∨ sbi.blocksize = 4096
  logic : sbi.logicSbBlock = sbBlock * blockSize / sbi.blocksize
  perBlock : sbi.descPerBlock = sbi.blocksize / groupDescSize
  bits : sbi.descPerBlockBits = sbi.descPerBlock.log2
  perGroup : sbi.blocksPerGroup ≠ 0
  gdb : sbi.gdbCount = (sbi.groupsCount + sbi.descPerBlock - 1) / sbi.descPerBlock
  descs : sbi.groupDesc = (List.range sbi.gdbCount).map (sbi.descriptorLoc sbi.logicSbBlock)

theorem shifted_size {size k : Nat} (set : 512 ≤ size ∧ size ≤ pageLimit) (few : k < 32)
    (shifted : size = blockSize <<< k % 2 ^ 32) : size = 1024 ∨ size = 2048 ∨ size = 4096 := by
  have sizes : ∀ k < 32, 512 ≤ blockSize <<< k % 2 ^ 32 → blockSize <<< k % 2 ^ 32 ≤ pageLimit →
      blockSize <<< k % 2 ^ 32 = 1024 ∨ blockSize <<< k % 2 ^ 32 = 2048 ∨ blockSize <<< k % 2 ^ 32 = 4096 := by
    decide
  subst shifted
  exact sizes k few set.1 set.2

theorem setBlocksize_bounds {dev : Device} {size : Nat} (set : sbSetBlocksize dev size = true) :
    512 ≤ size ∧ size ≤ pageLimit := by
  unfold sbSetBlocksize at set
  simp only [Bool.and_eq_true, decide_eq_true_iff] at set
  exact ⟨set.1.1.1, set.1.1.2⟩

theorem minBlocksize_bounds {dev : Device} (nonzero : sbMinBlocksize dev blockSize ≠ 0) :
    512 ≤ sbMinBlocksize dev blockSize ∧ sbMinBlocksize dev blockSize ≤ pageLimit := by
  unfold sbMinBlocksize at nonzero ⊢
  split_ifs at nonzero ⊢ with set
  · exact setBlocksize_bounds set
  · exact absurd rfl nonzero

theorem rereadSuper_block {dev : Device} {blocksize es blocksize' es' : Nat}
    (set : 512 ≤ blocksize ∧ blocksize ≤ pageLimit) (found : rereadSuper dev blocksize es = .ok (blocksize', es')) :
    blocksize' = 1024 ∨ blocksize' = 2048 ∨ blocksize' = 4096 := by
  unfold rereadSuper at found
  simp only at found
  have few : sLogBlockSize.get dev.bytes es % 32 < 32 := Nat.mod_lt _ (by decide)
  split_ifs at found with same
  · obtain ⟨rfl, -⟩ := Prod.mk.inj (Except.ok.inj found)
    exact shifted_size set few same
  · obtain ⟨again, found⟩ := ensure_bind_ok found
    obtain ⟨-, found⟩ := ensure_bind_ok found
    obtain ⟨-, found⟩ := ensure_bind_ok found
    obtain ⟨rfl, -⟩ := Prod.mk.inj (Except.ok.inj found)
    exact shifted_size (setBlocksize_bounds again) few rfl

theorem findSuper_block {dev : Device} {options : List MountToken} {blocksize es : Nat} {opt : MountOpt}
    (found : findSuper dev options = .ok ((blocksize, es), opt)) :
    blocksize = 1024 ∨ blocksize = 2048 ∨ blocksize = 4096 := by
  unfold findSuper at found
  obtain ⟨-, found⟩ := ensure_bind_ok found
  obtain ⟨-, found⟩ := ensure_bind_ok found
  obtain ⟨nonzero, found⟩ := ensure_bind_ok found
  obtain ⟨-, found⟩ := ensure_bind_ok found
  obtain ⟨-, found⟩ := ensure_bind_ok found
  obtain ⟨options, -, found⟩ := bind_ok found
  obtain ⟨-, found⟩ := ensure_bind_ok found
  obtain ⟨⟨size, place⟩, reread, found⟩ := bind_ok found
  obtain ⟨same, -⟩ := Prod.mk.inj (Except.ok.inj found)
  obtain ⟨rfl, rfl⟩ := Prod.mk.inj same
  exact rereadSuper_block (minBlocksize_bounds (of_decide_eq_true nonzero)) reread

theorem readSizes_ok {dev : Device} {blocksize es : Nat} {opt : MountOpt} {sbi : SbInfo}
    (read : readSizes dev blocksize es opt = .ok sbi) :
    sbi.blocksize = blocksize ∧ sbi.logicSbBlock = sbBlock * blockSize / blocksize ∧
      sbi.descPerBlock = blocksize / groupDescSize ∧ sbi.descPerBlockBits = sbi.descPerBlock.log2 ∧
      sbi.blocksPerGroup ≠ 0 ∧ sbi.gdbCount = (sbi.groupsCount + sbi.descPerBlock - 1) / sbi.descPerBlock := by
  unfold readSizes at read
  obtain ⟨-, read⟩ := ensure_bind_ok read
  obtain ⟨-, read⟩ := ensure_bind_ok read
  obtain ⟨-, read⟩ := ensure_bind_ok read
  obtain ⟨-, read⟩ := ensure_bind_ok read
  obtain ⟨nonzero, read⟩ := ensure_bind_ok read
  obtain rfl := Except.ok.inj read
  exact ⟨rfl, rfl, rfl, rfl, of_decide_eq_true nonzero, rfl⟩

theorem readDescriptors_ok {sbi sbi' : SbInfo} (read : readDescriptors sbi = .ok sbi') :
    sbi' = { sbi with groupDesc := (List.range sbi.gdbCount).map (sbi.descriptorLoc sbi.logicSbBlock) } := by
  unfold readDescriptors at read
  obtain ⟨-, read⟩ := ensure_bind_ok read
  obtain ⟨-, read⟩ := ensure_bind_ok read
  obtain ⟨-, read⟩ := ensure_bind_ok read
  obtain ⟨-, read⟩ := ensure_bind_ok read
  exact (Except.ok.inj read).symm

theorem readRoot_ok {slab : Image} {sbi sbi' : SbInfo} (read : readRoot slab sbi = some (.ok sbi')) : sbi' = sbi := by
  unfold readRoot at read
  cases load : ext2Iget sbi.inodeTable (sbi.dev.readable sbi.blocksize) slab sbi.dev.bytes rootIno with
  | failed err => simp [load] at read
  | undefined => simp [load] at read
  | loaded root =>
    simp only [load] at read
    split_ifs at read
    · cases read
    · obtain ⟨-, same⟩ := ensure_bind_ok (Option.some.inj read)
      exact (Except.ok.inj same).symm

/-- `ext2_fill_super` accepts the super block and the descriptors, and comes to the root inode. -/
def Loaded (dev : Device) (options : List MountToken) (sbi : SbInfo) : Prop :=
  ∃ blocksize es opt, findSuper dev options = .ok ((blocksize, es), opt) ∧
    readSizes dev blocksize es opt >>= readDescriptors = .ok sbi

theorem fillSuper_loaded {dev : Device} {options : List MountToken} {slab : Image} {sbi : SbInfo}
    (mounted : ext2FillSuper dev options slab = some (.ok sbi)) : Loaded dev options sbi := by
  unfold ext2FillSuper at mounted
  cases found : findSuper dev options with
  | error err => simp [found] at mounted
  | ok super =>
    obtain ⟨⟨blocksize, es⟩, opt⟩ := super
    simp only [found] at mounted
    cases read : readSizes dev blocksize es opt >>= readDescriptors with
    | error err => simp [read] at mounted
    | ok loaded =>
      simp only [read] at mounted
      obtain rfl := readRoot_ok mounted
      exact ⟨blocksize, es, opt, found, read⟩

theorem Loaded.accepted {dev : Device} {options : List MountToken} {sbi : SbInfo} (loaded : Loaded dev options sbi) :
    Accepted sbi := by
  obtain ⟨blocksize, es, opt, found, read⟩ := loaded
  obtain ⟨sized, sizes, descs⟩ := bind_ok read
  obtain ⟨block, logic, perBlock, bits, perGroup, gdb⟩ := readSizes_ok sizes
  obtain rfl := readDescriptors_ok descs
  subst block
  exact ⟨findSuper_block found, logic, perBlock, bits, perGroup, gdb, rfl⟩

theorem fillSuper_accepted {dev : Device} {options : List MountToken} {slab : Image} {sbi : SbInfo}
    (mounted : ext2FillSuper dev options slab = some (.ok sbi)) : Accepted sbi :=
  (fillSuper_loaded mounted).accepted

/-! ### The place of a descriptor -/

variable {sbi : SbInfo} {g : Nat}

theorem Accepted.shift (accepted : Accepted sbi) :
    ∃ k, 5 ≤ k ∧ k ≤ 7 ∧ sbi.descPerBlock = 2 ^ k ∧ sbi.descPerBlockBits = k ∧ sbi.blocksize = groupDescSize * 2 ^ k := by
  have per := accepted.perBlock
  have bits := accepted.bits
  rcases accepted.block with size | size | size
  · have per : sbi.descPerBlock = 2 ^ 5 := by rw [per, size]; rfl
    exact ⟨5, by decide, by decide, per, by rw [bits, per]; exact Nat.log2_two_pow, by rw [size]; rfl⟩
  · have per : sbi.descPerBlock = 2 ^ 6 := by rw [per, size]; rfl
    exact ⟨6, by decide, by decide, per, by rw [bits, per]; exact Nat.log2_two_pow, by rw [size]; rfl⟩
  · have per : sbi.descPerBlock = 2 ^ 7 := by rw [per, size]; rfl
    exact ⟨7, by decide, by decide, per, by rw [bits, per]; exact Nat.log2_two_pow, by rw [size]; rfl⟩

theorem Accepted.logic_le (accepted : Accepted sbi) : sbi.logicSbBlock ≤ 1 := by
  rw [accepted.logic]
  rcases accepted.block with size | size | size <;> rw [size] <;> decide

theorem Accepted.block_loaded (accepted : Accepted sbi) (inside : g < sbi.groupsCount) :
    g / sbi.descPerBlock < sbi.gdbCount := by
  obtain ⟨k, -, -, per, -⟩ := accepted.shift
  have pos : 0 < sbi.descPerBlock := by
    rw [per]
    exact Nat.two_pow_pos k
  rw [accepted.gdb]
  apply (Nat.div_lt_iff_lt_mul pos).mpr
  have whole := Nat.div_add_mod (sbi.groupsCount + sbi.descPerBlock - 1) sbi.descPerBlock
  have part := Nat.mod_lt (sbi.groupsCount + sbi.descPerBlock - 1) pos
  have swap := Nat.mul_comm sbi.descPerBlock ((sbi.groupsCount + sbi.descPerBlock - 1) / sbi.descPerBlock)
  omega

theorem getGroupDesc_eq (accepted : Accepted sbi) (inside : g < sbi.groupsCount) :
    sbi.getGroupDesc g = some (sbi.descriptorLoc sbi.logicSbBlock (g / sbi.descPerBlock) * sbi.blocksize +
      groupDescSize * (g % sbi.descPerBlock)) := by
  obtain ⟨k, -, -, per, bits, -⟩ := accepted.shift
  have loaded := accepted.block_loaded inside
  have block : g >>> sbi.descPerBlockBits = g / sbi.descPerBlock := by
    rw [bits, per, Nat.shiftRight_eq_div_pow]
  have offset : g &&& (sbi.descPerBlock - 1) = g % sbi.descPerBlock := by
    rw [per, Nat.and_two_pow_sub_one_eq_mod]
  unfold SbInfo.getGroupDesc
  rw [if_neg (Nat.not_le.mpr inside), block, offset, accepted.descs]
  simp only [List.getElem?_map, List.getElem?_range loaded, Option.map_some]

/-- The descriptor at its place in a table behind the super block. -/
theorem contiguous_iff (accepted : Accepted sbi) (inside : g < sbi.groupsCount) :
    sbi.getGroupDesc g = some ((sbi.logicSbBlock + 1) * sbi.blocksize + groupDescSize * g) ↔
      sbi.descriptorLoc sbi.logicSbBlock (g / sbi.descPerBlock) = sbi.logicSbBlock + 1 + g / sbi.descPerBlock := by
  obtain ⟨k, -, -, per, -, size⟩ := accepted.shift
  have pos : 0 < sbi.blocksize := by
    rw [size]
    exact Nat.mul_pos (by decide) (Nat.two_pow_pos k)
  have split : groupDescSize * g = g / sbi.descPerBlock * sbi.blocksize + groupDescSize * (g % sbi.descPerBlock) := by
    calc groupDescSize * g
        = groupDescSize * (sbi.descPerBlock * (g / sbi.descPerBlock) + g % sbi.descPerBlock) := by
          rw [Nat.div_add_mod]
      _ = g / sbi.descPerBlock * sbi.blocksize + groupDescSize * (g % sbi.descPerBlock) := by
          rw [size, per]
          ring
  rw [getGroupDesc_eq accepted inside, Option.some_inj, split, ← Nat.add_assoc, ← Nat.add_mul, Nat.add_right_cancel_iff]
  exact ⟨Nat.eq_of_mul_eq_mul_right pos, fun same => by rw [same]⟩

/-- Behind `s_first_meta_bg` every descriptor block is looked for in its own part of the volume. -/
theorem descriptorLoc_iff (accepted : Accepted sbi) (nr : Nat) :
    sbi.descriptorLoc sbi.logicSbBlock nr = sbi.logicSbBlock + 1 + nr ↔
      nr < sbi.field sFirstMetaBg ∨ nr = 0 ∧ sbi.field sFirstDataBlock = sbi.logicSbBlock := by
  unfold SbInfo.descriptorLoc SbInfo.groupFirstBlockNo SbInfo.bgHasSuper
  simp only
  split_ifs with table
  · exact ⟨fun _ => .inl table, fun _ => by omega⟩
  · cases nr with
    | zero =>
      simp only [Nat.mul_zero, Nat.zero_mul, Nat.zero_add, Nat.add_zero, Nat.add_right_cancel_iff, true_and]
      exact ⟨.inr, fun either => either.resolve_left table⟩
    | succ nr =>
      obtain ⟨k, least, -, per, -⟩ := accepted.shift
      have many : 32 * (nr + 1) ≤ sbi.descPerBlock * (nr + 1) * sbi.blocksPerGroup := by
        have dpb : 2 ^ 5 ≤ sbi.descPerBlock := by
          rw [per]
          exact Nat.pow_le_pow_right (by decide) least
        calc 32 * (nr + 1) ≤ sbi.descPerBlock * (nr + 1) := Nat.mul_le_mul_right (nr + 1) dpb
          _ ≤ sbi.descPerBlock * (nr + 1) * sbi.blocksPerGroup :=
            Nat.le_mul_of_pos_right _ (Nat.pos_of_ne_zero accepted.perGroup)
      have logic := accepted.logic_le
      exact ⟨fun same => by omega, fun either => either.elim (absurd · table) fun first => absurd first.1 (by omega)⟩

theorem descriptor_contiguous_iff {dev : Device} {options : List MountToken} {slab : Image}
    (mounted : ext2FillSuper dev options slab = some (.ok sbi)) (inside : g < sbi.groupsCount) :
    sbi.getGroupDesc g = some ((sbi.logicSbBlock + 1) * sbi.blocksize + groupDescSize * g) ↔
      g / sbi.descPerBlock < sbi.field sFirstMetaBg ∨
        g / sbi.descPerBlock = 0 ∧ sbi.field sFirstDataBlock = sbi.logicSbBlock := by
  have accepted := fillSuper_accepted mounted
  rw [contiguous_iff accepted inside]
  exact descriptorLoc_iff accepted (g / sbi.descPerBlock)

/-! ### A volume with two descriptor blocks -/

def superWord : Nat → Nat
  | 0 => 264
  | 1 => 529
  | 5 => 1
  | 8 => 16
  | 10 => 8
  | 14 => superMagic + 2 ^ 16
  | 15 => 1
  | _ => 0

def descriptorWord (g : Nat) : Nat → Nat
  | 0 => 1 + 16 * g + 3
  | 1 => 1 + 16 * g + 4
  | 2 => 1 + 16 * g + 5
  | _ => 0

def rootWord : Nat → Nat
  | 0 => 0x41ED
  | 1 => 1024
  | 6 => 2 * 2 ^ 16
  | 7 => 2
  | _ => 0

/-- 33 groups of 16 blocks of 1024 bytes, with their descriptors from block 2 on. The second block of
group 32, where data may be, reads as a descriptor of that group too. -/
def volumeWord (w : Nat) : Nat :=
  if w < 256 then 0
  else if w < 512 then superWord (w - 256)
  else if w < 776 then descriptorWord ((w - 512) / 8) (w % 8)
  else if 1568 ≤ w ∧ w < 1600 then rootWord (w - 1568)
  else if 131584 ≤ w ∧ w < 131592 then descriptorWord 32 (w % 8)
  else 0

def twoTableBlocks : Device where
  bytes k := UInt8.ofNat (volumeWord (k / 4) >>> (8 * (k % 4)))
  logicalBlockSize := 512
  readable _ _ := true
  allocates _ := true

/-- Whether a mount succeeds with what `check` looks for. -/
def mountsWith (check : SbInfo → Bool) : Option (Except Int SbInfo) → Bool
  | some (.ok sbi) => check sbi
  | _ => false

theorem of_mountsWith {check : SbInfo → Bool} {result : Option (Except Int SbInfo)}
    (mounts : mountsWith check result = true) : ∃ sbi, result = some (.ok sbi) ∧ check sbi = true := by
  rcases result with _ | _ | sbi
  · cases mounts
  · cases mounts
  · exact ⟨sbi, rfl, mounts⟩

theorem twoTableBlocks_mounts :
    ∃ sbi, ext2FillSuper twoTableBlocks [] (fun _ => 0) = some (.ok sbi) ∧ sbi.groupsCount = 33 ∧
      sbi.getGroupDesc 32 = some 526336 ∧ (sbi.logicSbBlock + 1) * sbi.blocksize + groupDescSize * 32 = 3072 := by
  obtain ⟨sbi, mounted, checked⟩ := @of_mountsWith (fun sbi => decide (sbi.groupsCount = 33 ∧
      sbi.getGroupDesc 32 = some 526336 ∧ (sbi.logicSbBlock + 1) * sbi.blocksize + groupDescSize * 32 = 3072))
    (ext2FillSuper twoTableBlocks [] fun _ => 0) (by decide +kernel)
  exact ⟨sbi, mounted, of_decide_eq_true checked⟩

theorem descriptor_contiguous_iff_two_blocks :
    ∃ sbi, ext2FillSuper twoTableBlocks [] (fun _ => 0) = some (.ok sbi) ∧
      (sbi.getGroupDesc 32 = some ((sbi.logicSbBlock + 1) * sbi.blocksize + groupDescSize * 32) ↔
        32 / sbi.descPerBlock < sbi.field sFirstMetaBg ∨
          32 / sbi.descPerBlock = 0 ∧ sbi.field sFirstDataBlock = sbi.logicSbBlock) := by
  obtain ⟨sbi, mounted, groups, -⟩ := twoTableBlocks_mounts
  have inside : 32 < sbi.groupsCount := by
    rw [groups]
    decide
  exact ⟨sbi, mounted, descriptor_contiguous_iff mounted inside⟩

theorem second_block_not_behind :
    ¬ ∀ (dev : Device) (options : List MountToken) (slab : Image) (sbi : SbInfo) (g : Nat),
      ext2FillSuper dev options slab = some (.ok sbi) → g < sbi.groupsCount →
      sbi.getGroupDesc g = some ((sbi.logicSbBlock + 1) * sbi.blocksize + groupDescSize * g) := by
  intro contiguous
  obtain ⟨sbi, mounted, groups, found, behind⟩ := twoTableBlocks_mounts
  have inside : 32 < sbi.groupsCount := by
    rw [groups]
    decide
  have same := contiguous twoTableBlocks [] (fun _ => 0) sbi 32 mounted inside
  rw [found, behind] at same
  exact absurd (Option.some.inj same) (by decide)

end OsLab.Ext2
