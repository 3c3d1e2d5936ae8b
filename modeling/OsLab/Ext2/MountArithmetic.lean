import OsLab.Foundation.Traced
import OsLab.Ext2.DescriptorTable

/-!
# The arithmetic of a mount

`ext2_fill_super` up to the descriptors, with the shifts, subtractions, divisions and conversions that
it makes. No check stands before `s_log_block_size` is a shift count and before `s_first_data_block` is
subtracted from `s_blocks_count`.
-/

namespace OsLab.Ext2
open Bytes Bytes.Field Traced

/-- `shift` and `toInt` are those of an `int`, `subtract` is that of a `u32`, and `store` is a number and
what it stands for. -/
inductive Arith where
  | shift (amount : Nat)
  | toInt (value : Nat)
  | divide (divisor : Nat)
  | subtract (minuend subtrahend : Nat)
  | store (value exact : Int)

namespace Arith

def Defined : Arith → Prop
  | shift amount => amount < 32
  | toInt value => value < 2 ^ 31
  | divide divisor => divisor ≠ 0
  | subtract minuend subtrahend => subtrahend ≤ minuend
  | store value exact => value = exact

instance : DecidablePred Defined := fun op =>
  match op with
  | shift amount => inferInstanceAs (Decidable (amount < 32))
  | toInt value => inferInstanceAs (Decidable (value < 2 ^ 31))
  | divide divisor => inferInstanceAs (Decidable (divisor ≠ 0))
  | subtract minuend subtrahend => inferInstanceAs (Decidable (subtrahend ≤ minuend))
  | store value exact => inferInstanceAs (Decidable (value = exact))

@[simp] theorem defined_shift (amount : Nat) : (shift amount).Defined ↔ amount < 32 := Iff.rfl

@[simp] theorem defined_toInt (value : Nat) : (toInt value).Defined ↔ value < 2 ^ 31 := Iff.rfl

@[simp] theorem defined_divide (divisor : Nat) : (divide divisor).Defined ↔ divisor ≠ 0 := Iff.rfl

@[simp] theorem defined_subtract (minuend subtrahend : Nat) :
    (subtract minuend subtrahend).Defined ↔ subtrahend ≤ minuend := Iff.rfl

@[simp] theorem defined_store (value exact : Int) : (store value exact).Defined ↔ value = exact := Iff.rfl

end Arith

/-! ### The operations in their order -/

namespace Checked

abbrev Mount (α : Type) := ExceptT Int (Traced Arith) α

def log (ops : List Arith) : Mount PUnit := ExceptT.lift (emitAll ops)

def check (condition : Bool) (err : Int) : Mount Unit := ExceptT.mk (pure (ensure condition err))

/-- `(sb_block * BLOCK_SIZE) / blocksize` and the remainder. -/
def divideSuper (blocksize : Nat) : List Arith := [.divide blocksize, .divide blocksize]

def rereadSuper (dev : Device) (blocksize es : Nat) : Mount (Nat × Nat) := do
  let sLogBlockSize := sLogBlockSize.get dev.bytes es
  log [.shift sLogBlockSize, .toInt (blockSize * 2 ^ sLogBlockSize)]
  let wanted := blockSize <<< (sLogBlockSize % 32) % 2 ^ 32
  if blocksize = wanted then pure (blocksize, es)
  else do
    check (sbSetBlocksize dev wanted) (-einval)
    log (divideSuper wanted)
    let logicSbBlock := sbBlock * blockSize / wanted
    let es := logicSbBlock * wanted + sbBlock * blockSize % wanted
    check (dev.readable wanted logicSbBlock) (-einval)
    check (sMagic.get dev.bytes es == superMagic) (-einval)
    pure (wanted, es)

def findSuper (dev : Device) (options : List MountToken) : Mount ((Nat × Nat) × MountOpt) := do
  check (dev.allocates .sbInfo) (-enomem)
  check (dev.allocates .blockgroupLock) (-enomem)
  let blocksize := sbMinBlocksize dev blockSize
  check (blocksize ≠ 0) (-einval)
  log (if blocksize = blockSize then [] else divideSuper blocksize)
  let logicSbBlock := sbBlock * blockSize / blocksize
  let es := logicSbBlock * blocksize + sbBlock * blockSize % blocksize
  check (dev.readable blocksize logicSbBlock) (-einval)
  check (sMagic.get dev.bytes es == superMagic) (-einval)
  let opt ← ExceptT.mk (pure (readOptions dev es options))
  check (sFeatureRoCompat.get dev.bytes es == 0 && sFeatureCompat.get dev.bytes es == 0 &&
    sFeatureIncompat.get dev.bytes es == 0) (-einval)
  let found ← rereadSuper dev blocksize es
  pure (found, opt)

/-- An `int` of a 64-bit number. -/
def intOf (value : Nat) : Int := signed (value % 2 ^ 32)

def readSizes (dev : Device) (blocksize es : Nat) (opt : MountOpt) : Mount SbInfo := do
  -- `EXT2_NDIR_BLOCKS << sb->s_blocksize_bits`
  log [.shift blocksize.log2]
  let old := sRevLevel.get dev.bytes es == 0
  let inodeSize := if old then 128 else sInodeSize.get dev.bytes es
  let firstIno := if old then 11 else intWord (sFirstIno.get dev.bytes es)
  check (old || (128 ≤ inodeSize && isPowerOfTwo inodeSize && inodeSize ≤ blocksize)) (-einval)
  let blocksPerGroup := sBlocksPerGroup.get dev.bytes es
  let inodesPerGroup := sInodesPerGroup.get dev.bytes es
  log [.divide inodeSize]
  let inodesPerBlock := blocksize / inodeSize
  check (inodesPerBlock ≠ 0 && inodesPerGroup ≠ 0) (-einval)
  log [.divide inodesPerBlock, .divide groupDescSize]
  let descPerBlock := blocksize / groupDescSize
  check (blocksPerGroup ≤ blocksize * 8) (-einval)
  check (inodesPerGroup ≤ blocksize * 8) (-einval)
  check (blocksPerGroup ≠ 0) (-einval)
  let blocksCount := sBlocksCount.get dev.bytes es
  let firstDataBlock := sFirstDataBlock.get dev.bytes es
  let blocks := (blocksCount + 2 ^ 32 - firstDataBlock + 2 ^ 32 - 1) % 2 ^ 32
  let groupsCount := blocks / blocksPerGroup + 1
  let exactGroups : Int := ((blocksCount : Int) - firstDataBlock - 1) / blocksPerGroup + 1
  log [.subtract blocksCount (firstDataBlock + 1), .divide blocksPerGroup, .store groupsCount exactGroups]
  let dbCount := (groupsCount + descPerBlock - 1) / descPerBlock
  log [.divide descPerBlock, .store (intOf dbCount) ((exactGroups + descPerBlock - 1) / descPerBlock)]
  pure {
    dev := dev
    blocksize := blocksize
    logicSbBlock := sbBlock * blockSize / blocksize
    es := es
    mountOpt := opt
    inodeSize := inodeSize
    firstIno := firstIno
    blocksPerGroup := blocksPerGroup
    inodesPerGroup := inodesPerGroup
    inodesPerBlock := inodesPerBlock
    itbPerGroup := inodesPerGroup / inodesPerBlock
    descPerBlock := descPerBlock
    descPerBlockBits := descPerBlock.log2
    mountState := (diskSuper dev.bytes es).sState
    groupsCount := groupsCount
    gdbCount := dbCount
    groupDesc := [] }

/-- What `ext2_fill_super` does before it reads the descriptors. -/
def fillSuper (dev : Device) (options : List MountToken) : Mount SbInfo := do
  let ((blocksize, es), opt) ← findSuper dev options
  readSizes dev blocksize es opt

end Checked

variable {α : Type} {dev : Device} {options : List MountToken} {blocksize es : Nat} {opt : MountOpt}

/-! ### Without the operations -/

theorem check_value (condition : Bool) (err : Int) : (Checked.check condition err).run.value = ensure condition err := rfl

theorem log_value (ops : List Arith) : (Checked.log ops).run.value = .ok ⟨⟩ := rfl

theorem rereadSuper_value : (Checked.rereadSuper dev blocksize es).run.value = rereadSuper dev blocksize es := by
  unfold Checked.rereadSuper rereadSuper
  simp only [value_run_bind, value_run_ite, check_value, log_value]
  rfl

theorem findSuper_value : (Checked.findSuper dev options).run.value = findSuper dev options := by
  unfold Checked.findSuper findSuper
  simp only [value_run_bind, check_value, log_value, rereadSuper_value]
  rfl

theorem readSizes_value : (Checked.readSizes dev blocksize es opt).run.value = readSizes dev blocksize es opt := by
  unfold Checked.readSizes readSizes
  simp only [value_run_bind, check_value, log_value]
  rfl

theorem fillSuper_value :
    (Checked.fillSuper dev options).run.value =
      findSuper dev options >>= fun found => readSizes dev found.1.1 found.1.2 found.2 := by
  unfold Checked.fillSuper
  simp only [value_run_bind, findSuper_value, readSizes_value]

/-! ### With them -/

abbrev Fine (x : Checked.Mount α) : Prop := Sound Arith.Defined x

theorem fine_check {condition : Bool} {err : Int} {f : Unit → Checked.Mount α} :
    Fine (Checked.check condition err >>= f) ↔ (condition = true → Fine (f ())) := by
  have quiet : Fine (Checked.check condition err) := fun _ member => absurd member List.not_mem_nil
  unfold Fine at quiet ⊢
  rw [sound_bind, check_value]
  cases condition with
  | true => exact ⟨fun both _ => both.2 () rfl, fun rest => ⟨quiet, fun _ _ => rest rfl⟩⟩
  | false =>
    refine iff_of_true ⟨quiet, fun _ reached => ?_⟩ fun reached => ?_
    · cases reached
    · cases reached

theorem fine_log {ops : List Arith} {f : PUnit → Checked.Mount α} :
    Fine (Checked.log ops >>= f) ↔ (∀ op ∈ ops, op.Defined) ∧ Fine (f ⟨⟩) := by
  unfold Fine
  rw [sound_bind, log_value]
  have same : Sound Arith.Defined (Checked.log ops) ↔ ∀ op ∈ ops, op.Defined := by
    unfold Sound
    rw [show (Checked.log ops).run.events = ops ++ [] from rfl, List.append_nil]
  exact and_congr same ⟨fun rest => rest ⟨⟩ rfl, fun rest _ _ => rest⟩

/-- The super block is always at the byte 1024. -/
theorem superByte (blocksize : Nat) :
    sbBlock * blockSize / blocksize * blocksize + sbBlock * blockSize % blocksize = blockSize :=
  Nat.div_add_mod' _ _

/-- The super block is read, and what it says before its block size is supported. -/
structure Shifts (dev : Device) (options : List MountToken) : Prop where
  allocates : dev.allocates .sbInfo = true ∧ dev.allocates .blockgroupLock = true
  least : sbMinBlocksize dev blockSize ≠ 0
  reads : dev.readable (sbMinBlocksize dev blockSize) (sbBlock * blockSize / sbMinBlocksize dev blockSize) = true
  magic : sMagic.get dev.bytes blockSize = superMagic
  options : ∃ opt, readOptions dev blockSize options = .ok opt
  features : sFeatureRoCompat.get dev.bytes blockSize = 0 ∧ sFeatureCompat.get dev.bytes blockSize = 0 ∧
    sFeatureIncompat.get dev.bytes blockSize = 0

/-- The block size that the super block gives. -/
def namedBlocksize (dev : Device) : Nat := blockSize * 2 ^ sLogBlockSize.get dev.bytes blockSize

/-- The inode size is one that the mount supports. -/
def InodeSupported (dev : Device) (es blocksize : Nat) : Prop :=
  sRevLevel.get dev.bytes es = 0 ∨ 128 ≤ sInodeSize.get dev.bytes es ∧
    isPowerOfTwo (sInodeSize.get dev.bytes es) = true ∧ sInodeSize.get dev.bytes es ≤ blocksize

/-- The block size can be set, and the sizes of inodes and groups are supported. -/
structure Subtracts (dev : Device) : Prop where
  block : sbMinBlocksize dev blockSize = namedBlocksize dev ∨ sbSetBlocksize dev (namedBlocksize dev) = true ∧
    dev.readable (namedBlocksize dev) (sbBlock * blockSize / namedBlocksize dev) = true
  inode : InodeSupported dev blockSize (namedBlocksize dev)
  inodes : sInodesPerGroup.get dev.bytes blockSize ≠ 0 ∧
    sInodesPerGroup.get dev.bytes blockSize ≤ namedBlocksize dev * 8
  blocks : sBlocksPerGroup.get dev.bytes blockSize ≠ 0 ∧
    sBlocksPerGroup.get dev.bytes blockSize ≤ namedBlocksize dev * 8

theorem ensure_bind_ok_iff {condition : Bool} {err : Int} {f : Unit → Except Int α} {a : α} :
    ensure condition err >>= f = .ok a ↔ condition = true ∧ f () = .ok a := by
  refine ⟨ensure_bind_ok, ?_⟩
  rintro ⟨rfl, done⟩
  exact done

theorem block_fits_iff {s : Nat} : blockSize * 2 ^ s < 2 ^ 31 ↔ s ≤ 20 := by
  rw [show blockSize = 2 ^ 10 from rfl, ← Nat.pow_add, Nat.pow_lt_pow_iff_right (by decide)]
  omega

theorem named_eq {s : Nat} (small : s ≤ 20) : blockSize <<< (s % 32) % 2 ^ 32 = blockSize * 2 ^ s := by
  have fits := block_fits_iff.mpr small
  rw [Nat.mod_eq_of_lt (show s < 32 by omega), Nat.shiftLeft_eq, Nat.mod_eq_of_lt (by omega)]

/-! ### The block size -/

theorem findSuper_ok_iff :
    findSuper dev options = .ok ((blocksize, es), opt) ↔
      Shifts dev options ∧ readOptions dev blockSize options = .ok opt ∧
        rereadSuper dev (sbMinBlocksize dev blockSize) blockSize = .ok (blocksize, es) := by
  unfold findSuper
  simp only [ensure_bind_ok_iff, superByte, decide_eq_true_eq, beq_iff_eq]
  constructor
  · rintro ⟨info, lock, least, reads, magic, done⟩
    obtain ⟨opt, options, done⟩ := bind_ok done
    obtain ⟨features, done⟩ := ensure_bind_ok_iff.mp done
    obtain ⟨found, reread, done⟩ := bind_ok done
    obtain ⟨rfl, rfl⟩ := Prod.mk.inj (Except.ok.inj done)
    simp only [Bool.and_eq_true, beq_iff_eq] at features
    obtain ⟨⟨ro, compat⟩, incompat⟩ := features
    exact ⟨⟨⟨info, lock⟩, least, reads, magic, ⟨_, options⟩, ro, compat, incompat⟩, options, reread⟩
  · rintro ⟨⟨⟨info, lock⟩, least, reads, magic, -, ro, compat, incompat⟩, options, reread⟩
    refine ⟨info, lock, least, reads, magic, ?_⟩
    rw [options]
    show (ensure _ _ >>= _) = _
    simp only [ensure_bind_ok_iff, ro, compat, incompat, reread]
    exact ⟨rfl, rfl⟩

theorem rereadSuper_ok_iff (small : sLogBlockSize.get dev.bytes blockSize ≤ 20)
    (magic : sMagic.get dev.bytes blockSize = superMagic) {least : Nat} :
    rereadSuper dev least blockSize = .ok (blocksize, es) ↔
      (least = namedBlocksize dev ∨ sbSetBlocksize dev (namedBlocksize dev) = true ∧
        dev.readable (namedBlocksize dev) (sbBlock * blockSize / namedBlocksize dev) = true) ∧
        blocksize = namedBlocksize dev ∧ es = blockSize := by
  have named : blockSize <<< (sLogBlockSize.get dev.bytes blockSize % 32) % 2 ^ 32 = namedBlocksize dev := named_eq small
  unfold rereadSuper
  simp only [named]
  by_cases same : least = namedBlocksize dev
  · rw [if_pos same, same]
    simp only [true_or, true_and, Except.ok.injEq, Prod.mk.injEq]
    exact ⟨fun both => ⟨both.1.symm, both.2.symm⟩, fun both => ⟨both.1.symm, both.2.symm⟩⟩
  · rw [if_neg same]
    simp only [ensure_bind_ok_iff, superByte, magic, same, false_or, BEq.rfl, true_and, Except.ok.injEq, Prod.mk.injEq,
      and_assoc]
    exact and_congr_right fun _ => and_congr_right fun _ =>
      ⟨fun both => ⟨both.1.symm, both.2.symm⟩, fun both => ⟨both.1.symm, both.2.symm⟩⟩

theorem rereadSuper_fine : Fine (Checked.rereadSuper dev blocksize es) ↔ sLogBlockSize.get dev.bytes es ≤ 20 := by
  unfold Checked.rereadSuper
  rw [fine_log]
  simp only [List.forall_mem_cons, Arith.defined_shift, Arith.defined_toInt]
  constructor
  · rintro ⟨⟨-, fits, -⟩, -⟩
    exact block_fits_iff.mp fits
  · intro small
    refine ⟨⟨by omega, block_fits_iff.mpr small, fun _ member => absurd member List.not_mem_nil⟩, ?_⟩
    split_ifs
    · exact sound_pure _
    · refine fine_check.mpr fun set => fine_log.mpr ⟨?_, ?_⟩
      · have bounds := setBlocksize_bounds set
        simp [Checked.divideSuper]
        omega
      · exact fine_check.mpr fun _ => fine_check.mpr fun _ => sound_pure _

theorem findSuper_fine :
    Fine (Checked.findSuper dev options) ↔ (Shifts dev options → sLogBlockSize.get dev.bytes blockSize ≤ 20) := by
  have divided : sbMinBlocksize dev blockSize ≠ 0 → ∀ op ∈ (if sbMinBlocksize dev blockSize = blockSize then []
      else Checked.divideSuper (sbMinBlocksize dev blockSize)), op.Defined := by
    intro least
    split_ifs
    · exact fun _ member => absurd member List.not_mem_nil
    · simp [Checked.divideSuper, least]
  have found : ∀ opt, Fine (do
      let found ← Checked.rereadSuper dev (sbMinBlocksize dev blockSize) blockSize
      pure (found, opt) : Checked.Mount ((Nat × Nat) × MountOpt)) ↔ sLogBlockSize.get dev.bytes blockSize ≤ 20 := by
    intro opt
    rw [← @rereadSuper_fine dev (sbMinBlocksize dev blockSize) blockSize]
    exact sound_bind.trans ⟨fun both => both.1, fun first => ⟨first, fun _ _ => sound_pure _⟩⟩
  have later : Fine (do
      let opt ← ExceptT.mk (pure (readOptions dev blockSize options))
      Checked.check (sFeatureRoCompat.get dev.bytes blockSize == 0 && sFeatureCompat.get dev.bytes blockSize == 0 &&
        sFeatureIncompat.get dev.bytes blockSize == 0) (-einval)
      let found ← Checked.rereadSuper dev (sbMinBlocksize dev blockSize) blockSize
      pure (found, opt) : Checked.Mount ((Nat × Nat) × MountOpt)) ↔
        ((∃ opt, readOptions dev blockSize options = .ok opt) → sFeatureRoCompat.get dev.bytes blockSize = 0 ∧
          sFeatureCompat.get dev.bytes blockSize = 0 ∧ sFeatureIncompat.get dev.bytes blockSize = 0 →
          sLogBlockSize.get dev.bytes blockSize ≤ 20) := by
    have quiet : Fine (ExceptT.mk (pure (readOptions dev blockSize options)) : Checked.Mount MountOpt) :=
      fun _ member => absurd member List.not_mem_nil
    refine sound_bind.trans ((and_iff_right quiet).trans ?_)
    show (∀ opt, readOptions dev blockSize options = .ok opt → Fine _) ↔ _
    simp only [fine_check, found, Bool.and_eq_true, beq_iff_eq, and_assoc]
    exact ⟨fun all ⟨opt, done⟩ => all opt done, fun all opt done => all ⟨opt, done⟩⟩
  unfold Checked.findSuper
  simp only [fine_check, fine_log, superByte, decide_eq_true_eq, beq_iff_eq, later]
  constructor
  · rintro all ⟨⟨info, lock⟩, least, reads, magic, options, features⟩
    exact (all info lock least).2 reads magic options features
  · intro small info lock least
    refine ⟨divided least, fun reads magic options features => ?_⟩
    exact small ⟨⟨info, lock⟩, least, reads, magic, options, features⟩

/-! ### The sizes -/

theorem intOf_small {value : Nat} (small : value < 2 ^ 31) : Checked.intOf value = value := by
  unfold Checked.intOf signed
  rw [Nat.mod_eq_of_lt (by omega), if_pos small]

/-- What the subtraction, the division by `s_blocks_per_group` and the next one come to. -/
theorem groups_exact {blocksCount firstDataBlock blocksPerGroup descPerBlock : Nat}
    (small : blocksCount < 2 ^ 32 ∧ firstDataBlock < 2 ^ 32) (before : firstDataBlock < blocksCount)
    (many : 32 ≤ descPerBlock ∧ descPerBlock ≤ 128) :
    (((blocksCount + 2 ^ 32 - firstDataBlock + 2 ^ 32 - 1) % 2 ^ 32 / blocksPerGroup + 1 : Nat) : Int) =
        ((blocksCount : Int) - firstDataBlock - 1) / blocksPerGroup + 1 ∧
      Checked.intOf (((blocksCount + 2 ^ 32 - firstDataBlock + 2 ^ 32 - 1) % 2 ^ 32 / blocksPerGroup + 1 +
          descPerBlock - 1) / descPerBlock) =
        (((blocksCount : Int) - firstDataBlock - 1) / blocksPerGroup + 1 + descPerBlock - 1) / descPerBlock := by
  have blocks : (blocksCount + 2 ^ 32 - firstDataBlock + 2 ^ 32 - 1) % 2 ^ 32 = blocksCount - firstDataBlock - 1 := by omega
  have exact : ((blocksCount : Int) - firstDataBlock - 1) = ((blocksCount - firstDataBlock - 1 : Nat) : Int) := by omega
  rw [blocks, exact]
  have few : (blocksCount - firstDataBlock - 1) / blocksPerGroup ≤ blocksCount - firstDataBlock - 1 := Nat.div_le_self _ _
  have top (groups : Nat) : ((groups + 1 + descPerBlock - 1 : Nat) : Int) = (groups : Int) + 1 + descPerBlock - 1 := by
    omega
  refine ⟨by rw [Nat.cast_add, Nat.cast_one, Int.natCast_div], ?_⟩
  rw [intOf_small]
  · rw [Int.natCast_div, top, Int.natCast_div]
  · apply (Nat.div_lt_iff_lt_mul (by omega)).mpr
    generalize (blocksCount - firstDataBlock - 1) / blocksPerGroup = groups at few ⊢
    omega

theorem inodeSupported_iff {inodeSize : Nat}
    (size : (if sRevLevel.get dev.bytes es = 0 then 128 else sInodeSize.get dev.bytes es) = inodeSize) :
    (sRevLevel.get dev.bytes es = 0 ∨ (128 ≤ inodeSize ∧ isPowerOfTwo inodeSize = true) ∧ inodeSize ≤ blocksize) ↔
      InodeSupported dev es blocksize := by
  unfold InodeSupported
  by_cases old : sRevLevel.get dev.bytes es = 0
  · exact iff_of_true (Or.inl old) (Or.inl old)
  · rw [if_neg old] at size
    rw [size, and_assoc]

theorem InodeSupported.bounds {inodeSize : Nat}
    (size : (if sRevLevel.get dev.bytes es = 0 then 128 else sInodeSize.get dev.bytes es) = inodeSize)
    (large : 1024 ≤ blocksize) (supported : InodeSupported dev es blocksize) :
    128 ≤ inodeSize ∧ inodeSize ≤ blocksize := by
  by_cases old : sRevLevel.get dev.bytes es = 0
  · rw [if_pos old] at size
    omega
  · rw [if_neg old] at size
    subst size
    have given := supported.resolve_left old
    exact ⟨given.1, given.2.2⟩

theorem readSizes_fine (block : blocksize = 1024 ∨ blocksize = 2048 ∨ blocksize = 4096) :
    Fine (Checked.readSizes dev blocksize es opt) ↔
      (InodeSupported dev es blocksize →
        (sInodesPerGroup.get dev.bytes es ≠ 0 ∧ sInodesPerGroup.get dev.bytes es ≤ blocksize * 8) →
        (sBlocksPerGroup.get dev.bytes es ≠ 0 ∧ sBlocksPerGroup.get dev.bytes es ≤ blocksize * 8) →
        sFirstDataBlock.get dev.bytes es < sBlocksCount.get dev.bytes es) := by
  unfold Checked.readSizes
  simp only [fine_check, fine_log, Bool.or_eq_true, Bool.and_eq_true, decide_eq_true_eq, beq_iff_eq]
  generalize size : (if sRevLevel.get dev.bytes es = 0 then 128 else sInodeSize.get dev.bytes es) = inodeSize
  rw [inodeSupported_iff size]
  have sizes : InodeSupported dev es blocksize → 128 ≤ inodeSize ∧ blocksize / inodeSize ≠ 0 := by
    intro supported
    have bounds := supported.bounds size (by omega)
    exact ⟨bounds.1, Nat.ne_of_gt (Nat.div_pos bounds.2 (by omega))⟩
  constructor
  · rintro ⟨-, fine⟩ supported inodes blocks
    obtain ⟨-, fine⟩ := fine supported
    obtain ⟨-, fine⟩ := fine ⟨(sizes supported).2, inodes.1⟩
    obtain ⟨subtracted, -⟩ := fine blocks.2 inodes.2 blocks.1
    exact subtracted _ List.mem_cons_self
  · intro before
    refine ⟨?_, fun supported => ⟨?_, fun some => ⟨?_, fun blocks inodes nonzero => ?_⟩⟩⟩
    · have bits : blocksize.log2 < 32 := by
        rcases block with rfl | rfl | rfl <;> decide
      simp [bits]
    · have positive := (sizes supported).1
      simp only [List.forall_mem_singleton, Arith.defined_divide]
      omega
    · simp [some.1, groupDescSize]
    · have before := before supported ⟨some.2, inodes⟩ ⟨nonzero, blocks⟩
      have many : 32 ≤ blocksize / groupDescSize ∧ blocksize / groupDescSize ≤ 128 := by
        rcases block with rfl | rfl | rfl <;> decide
      obtain ⟨groups, table⟩ := groups_exact ⟨get_lt, get_lt⟩ before many
      refine ⟨?_, ?_, sound_pure _⟩
      · simp only [List.forall_mem_cons, Arith.defined_subtract, Arith.defined_divide, Arith.defined_store]
        exact ⟨before, nonzero, groups, fun _ member => absurd member List.not_mem_nil⟩
      · simp only [List.forall_mem_cons, Arith.defined_divide, Arith.defined_store]
        exact ⟨by omega, table, fun _ member => absurd member List.not_mem_nil⟩

/-- All operations up to the descriptors are defined unless the block size or the number of blocks is
used before it is checked. -/
theorem mount_arithmetic_iff (dev : Device) (options : List MountToken) :
    Fine (Checked.fillSuper dev options) ↔
      (Shifts dev options → sLogBlockSize.get dev.bytes blockSize ≤ 20 ∧
        (Subtracts dev → sFirstDataBlock.get dev.bytes blockSize < sBlocksCount.get dev.bytes blockSize)) := by
  unfold Checked.fillSuper Fine
  rw [sound_bind, findSuper_value]
  refine (and_congr_left' findSuper_fine).trans ?_
  constructor
  · rintro ⟨small, sizes⟩ shifts
    refine ⟨small shifts, fun subtracts => ?_⟩
    obtain ⟨opt, read⟩ := shifts.options
    have found : findSuper dev options = .ok ((namedBlocksize dev, blockSize), opt) :=
      findSuper_ok_iff.mpr
        ⟨shifts, read, (rereadSuper_ok_iff (small shifts) shifts.magic).mpr ⟨subtracts.block, rfl, rfl⟩⟩
    have fine : Fine (Checked.readSizes dev (namedBlocksize dev) blockSize opt) := sizes ((_, _), _) found
    rw [readSizes_fine (findSuper_block found)] at fine
    exact fine subtracts.inode subtracts.inodes subtracts.blocks
  · intro all
    refine ⟨fun shifts => (all shifts).1, ?_⟩
    rintro ⟨⟨blocksize, es⟩, opt⟩ found
    obtain ⟨shifts, -, reread⟩ := findSuper_ok_iff.mp found
    obtain ⟨small, before⟩ := all shifts
    obtain ⟨block, rfl, rfl⟩ := (rereadSuper_ok_iff small shifts.magic).mp reread
    show Fine (Checked.readSizes dev (namedBlocksize dev) blockSize opt)
    rw [readSizes_fine (findSuper_block found)]
    exact fun inode inodes blocks => before ⟨block, inode, inodes, blocks⟩

/-- A volume of 33 groups with another word of its super block. -/
def crafted (word value : Nat) : Device where
  bytes k := UInt8.ofNat ((if k / 4 = 256 + word then value else volumeWord (k / 4)) >>> (8 * (k % 4)))
  logicalBlockSize := 512
  readable _ _ := true
  allocates _ := true

/-- A block size of 2 GiB, and a volume that ends before its first data block. -/
theorem crafted_undefined : ¬ Fine (Checked.fillSuper (crafted 6 21) []) ∧ ¬ Fine (Checked.fillSuper (crafted 1 0) []) := by
  unfold Fine Sound
  decide +kernel

end OsLab.Ext2
