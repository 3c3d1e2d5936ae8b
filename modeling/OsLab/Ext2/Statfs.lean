import OsLab.Foundation.Bytes
import OsLab.Ext2.BallocSearch
import OsLab.Ext2.BlockRuns
import OsLab.Ext2.IallocRuns
import OsLab.Ext2.NameiPages
import OsLab.Ext2.Super
import Mathlib.Algebra.BigOperators.Ring.Finset

/-!
# File system statistics

`ext2_statfs` between any block calls and inode calls: the blocks and inodes it reports as
taken are those that the bitmaps and the inodes account for.
-/

namespace OsLab.Ext2
open Bitmap Runs

variable {ι τ : Type}

/-! ### `ext2_statfs` -/

def ext2BgHasSuper (_sb : SuperBlock) (_group : Nat) : Nat := 1

def ext2BgNumGdb (sb : SuperBlock) (group : Nat) : Nat := if ext2BgHasSuper sb group ≠ 0 then gdbCount sb else 0

def ext2CountFreeInodes (sb : SuperBlock) (s : InodeState τ) : Nat :=
  (((List.range (groupsCount sb)).filterMap (ext2GetGroupDesc sb)).map s.bgFreeInodesCount).sum

/-- The cached overhead, and the totals of the super block that `ext2_statfs` refreshes. -/
structure StatfsInfo where
  sBlocksLast : Nat
  sOverheadLast : Nat
  sFreeBlocksCount : Nat
  sFreeInodesCount : Nat
  deriving DecidableEq, Repr

structure Kstatfs where
  fType : Nat
  fBsize : Nat
  fBlocks : Nat
  fBfree : Nat
  fBavail : Nat
  fFiles : Nat
  fFfree : Nat
  fNamelen : Nat
  fFsid : Nat × Nat
  deriving DecidableEq, Repr

/-- The file system structures, added up as an `unsigned long`. -/
def overhead (sb : SuperBlock) : Nat :=
  (sb.firstDataBlock + ((List.range (groupsCount sb)).map fun i => ext2BgHasSuper sb i + ext2BgNumGdb sb i).sum +
    groupsCount sb * (2 + sb.itbPerGroup)) % 2 ^ 64

def u64ToFsid (v : Nat) : Nat × Nat := (v % 2 ^ 32, v / 2 ^ 32 % 2 ^ 32)

/-- The calls in progress, the records they share and what `ext2_statfs` keeps. -/
structure CountedState (ι τ : Type) where
  blocks : BlockState ι
  inodes : InodeState τ
  info : StatfsInfo

def ext2Statfs (v : InodeVolume) (sUuid : Bytes.Image) (s : CountedState ι τ) : Kstatfs × StatfsInfo :=
  let overheadLast := if s.info.sBlocksLast ≠ v.blocksCount then overhead v.toSuperBlock else s.info.sOverheadLast
  let fBfree := ext2CountFreeBlocks v.toSuperBlock s.blocks
  let fFfree := ext2CountFreeInodes v.toSuperBlock s.inodes
  ({ fType := superMagic
     fBsize := blocksize v.toSuperBlock
     fBlocks := (v.blocksCount + 2 ^ 64 - overheadLast) % 2 ^ 64
     fBfree
     fBavail := fBfree
     fFiles := v.inodesCount
     fFfree
     fNamelen := Namei.ext2NameLen
     fFsid := u64ToFsid (Bytes.load sUuid 0 8 ^^^ Bytes.load sUuid 8 8) },
    { sBlocksLast := v.blocksCount
      sOverheadLast := overheadLast
      sFreeBlocksCount := fBfree % 2 ^ 32
      sFreeInodesCount := fFfree % 2 ^ 32 })

/-! ### The structures of a group -/

/-- What `mke2fs` lays out: the mounted super block starts group 0, and the super block, the descriptors,
the bitmaps and the inode table of a group lie apart from each other. -/
structure LaidOut (v : Volume) : Prop where
  super : v.firstDataBlock = logicSbBlock v.toSuperBlock
  descriptors : ∀ g, g < groupsCount v.toSuperBlock →
    ext2GroupFirstBlockNo v.toSuperBlock g + gdbCount v.toSuperBlock < v.bgBlockBitmap g ∧
    ext2GroupFirstBlockNo v.toSuperBlock g + gdbCount v.toSuperBlock < v.bgInodeBitmap g ∧
    ext2GroupFirstBlockNo v.toSuperBlock g + gdbCount v.toSuperBlock < v.bgInodeTable g
  bitmaps : ∀ g, g < groupsCount v.toSuperBlock → v.bgBlockBitmap g ≠ v.bgInodeBitmap g
  blockBitmapOut : ∀ g, g < groupsCount v.toSuperBlock →
    v.bgBlockBitmap g < v.bgInodeTable g ∨ v.bgInodeTable g + v.itbPerGroup ≤ v.bgBlockBitmap g
  inodeBitmapOut : ∀ g, g < groupsCount v.toSuperBlock →
    v.bgInodeBitmap g < v.bgInodeTable g ∨ v.bgInodeTable g + v.itbPerGroup ≤ v.bgInodeBitmap g

section
variable {v : Volume} {g : Nat}

/-- The bits of the blocks of a group for which `p` holds. -/
def bitsOf (sb : SuperBlock) (p : Nat → Prop) [DecidablePred p] (g : Nat) : Bits :=
  fun k => decide (p (ext2GroupFirstBlockNo sb g + k))

theorem metadata_offset (laid : LaidOut v) (inside : g < groupsCount v.toSuperBlock) {k : Nat}
    (bound : k < nblocks v.toSuperBlock g) :
    Metadata v.toSuperBlock (ext2GroupFirstBlockNo v.toSuperBlock g + k) ↔
      k ≤ gdbCount v.toSuperBlock ∨
      ext2GroupFirstBlockNo v.toSuperBlock g + k = v.bgBlockBitmap g ∨
      ext2GroupFirstBlockNo v.toSuperBlock g + k = v.bgInodeBitmap g ∨
      (v.bgInodeTable g ≤ ext2GroupFirstBlockNo v.toSuperBlock g + k ∧
        ext2GroupFirstBlockNo v.toSuperBlock g + k < v.bgInodeTable g + v.itbPerGroup) := by
  have group := groupOf_add (v := v) (g := g) (bound.trans_le (nblocks_le inside))
  have super := laid.super
  have low : v.firstDataBlock ≤ ext2GroupFirstBlockNo v.toSuperBlock g := by unfold ext2GroupFirstBlockNo; omega
  unfold Metadata
  rw [group]
  omega

/-- Each group holds a super block, its descriptors, two bitmaps and an inode table. -/
theorem metadata_count (laid : LaidOut v) (inside : g < groupsCount v.toSuperBlock) :
    setCount (bitsOf v.toSuperBlock (Metadata v.toSuperBlock) g) (nblocks v.toSuperBlock g) =
      1 + gdbCount v.toSuperBlock + (2 + v.itbPerGroup) := by
  obtain ⟨behindBlock, behindInode, behindTable⟩ := laid.descriptors g inside
  have blockBitmap := v.blockBitmap g inside
  have inodeBitmap := v.inodeBitmap g inside
  have inodeTable := v.inodeTable g inside
  have apart := laid.bitmaps g inside
  have blockOut := laid.blockBitmapOut g inside
  have inodeOut := laid.inodeBitmapOut g inside
  have size : nblocks v.toSuperBlock g =
      ext2GroupLastBlockNo v.toSuperBlock g - ext2GroupFirstBlockNo v.toSuperBlock g + 1 := rfl
  have offset := fun {k} (bound : k < nblocks v.toSuperBlock g) => metadata_offset laid inside bound
  set first := ext2GroupFirstBlockNo v.toSuperBlock g
  set table := Finset.Ico (v.bgInodeTable g - first) (v.bgInodeTable g - first + v.itbPerGroup)
  have parts : ((Finset.range (nblocks v.toSuperBlock g)).filter
      fun k => bitsOf v.toSuperBlock (Metadata v.toSuperBlock) g k = true) =
      insert (v.bgBlockBitmap g - first) (insert (v.bgInodeBitmap g - first)
        (Finset.range (1 + gdbCount v.toSuperBlock) ∪ table)) := by
    ext k
    simp only [Finset.mem_filter, Finset.mem_range, bitsOf, decide_eq_true_eq, Finset.mem_insert, Finset.mem_union,
      table, Finset.mem_Ico]
    constructor
    · intro ⟨bound, zone⟩
      have zone := (offset bound).mp zone
      omega
    · intro zone
      have bound : k < nblocks v.toSuperBlock g := by omega
      exact ⟨bound, (offset bound).mpr (by omega)⟩
  have tableApart : Disjoint (Finset.range (1 + gdbCount v.toSuperBlock)) table := by
    simp only [Finset.disjoint_left, table, Finset.mem_range, Finset.mem_Ico]
    omega
  rw [setCount_eq_card, parts, Finset.card_insert_of_notMem, Finset.card_insert_of_notMem,
    Finset.card_union_of_disjoint tableApart, Finset.card_range, Nat.card_Ico]
  · omega
  · simp only [table, Finset.mem_union, Finset.mem_range, Finset.mem_Ico]
    omega
  · simp only [table, Finset.mem_insert, Finset.mem_union, Finset.mem_range, Finset.mem_Ico]
    omega

/-- The groups cover the volume from its first data block on. -/
theorem bitsOf_count (p : Nat → Prop) [DecidablePred p] :
    ∑ g ∈ Finset.range (groupsCount v.toSuperBlock), setCount (bitsOf v.toSuperBlock p g) (nblocks v.toSuperBlock g) =
      setCount (fun k => decide (p (v.firstDataBlock + k))) (v.blocksCount - v.firstDataBlock) := by
  have blocks := v.blocks
  set full := (v.blocksCount - v.firstDataBlock - 1) / v.blocksPerGroup
  have count : groupsCount v.toSuperBlock = full + 1 := rfl
  have product : full * v.blocksPerGroup ≤ v.blocksCount - v.firstDataBlock - 1 := Nat.div_mul_le_self _ _
  have size : ∀ g, nblocks v.toSuperBlock g =
      if g = full then v.blocksCount - v.firstDataBlock - full * v.blocksPerGroup else v.blocksPerGroup := by
    intro g
    have some := v.perGroup.1
    unfold nblocks ext2GroupLastBlockNo ext2GroupFirstBlockNo
    rw [count, Nat.add_sub_cancel]
    by_cases last : g = full
    · rw [if_pos last, if_pos last, last]
      omega
    · rw [if_neg last, if_neg last]
      omega
  have groups := clearCount_groups (fun k => !decide (p (v.firstDataBlock + k))) v.blocksPerGroup full
    (v.blocksCount - v.firstDataBlock - full * v.blocksPerGroup)
  rw [Nat.add_sub_cancel' (by omega)] at groups
  unfold setCount
  rw [← groups, count]
  refine Finset.sum_congr rfl fun g _ => ?_
  rw [size g]
  refine clearCount_congr fun k _ => ?_
  unfold bitsOf ext2GroupFirstBlockNo
  rw [Nat.add_comm v.firstDataBlock, Nat.add_right_comm]

theorem volume_setCount {blocks : Finset Nat} (inside : ∀ b ∈ blocks, v.firstDataBlock ≤ b ∧ b < v.blocksCount) :
    setCount (fun k => decide (v.firstDataBlock + k ∈ blocks)) (v.blocksCount - v.firstDataBlock) = blocks.card := by
  have shifted : blocks = ((Finset.range (v.blocksCount - v.firstDataBlock)).filter
      fun k => decide (v.firstDataBlock + k ∈ blocks) = true).image (v.firstDataBlock + ·) := by
    ext b
    simp only [Finset.mem_image, Finset.mem_filter, Finset.mem_range, decide_eq_true_eq]
    constructor
    · intro member
      have range := inside b member
      have back : v.firstDataBlock + (b - v.firstDataBlock) = b := by omega
      exact ⟨b - v.firstDataBlock, ⟨by omega, back.symm ▸ member⟩, back⟩
    · rintro ⟨k, ⟨-, member⟩, rfl⟩
      exact member
  rw [setCount_eq_card]
  conv_rhs => rw [shifted, Finset.card_image_of_injective _ (add_right_injective v.firstDataBlock)]

end

/-! ### Blocks in use -/

instance : DecidablePred Mapped :=
  fun n => inferInstanceAs (Decidable (n.kind = .reg ∨ n.kind = .dir ∨ n.kind = .lnk ∧ (_ ∨ _)))

def slotBlocks (n : BlockInode) : Finset Nat :=
  if Mapped n then ((Finset.range ndirBlocks).filter fun k => n.iData k ≠ 0).image n.iData else ∅

/-- The number of blocks that the slots of an inode name. -/
def slotTotal (n : BlockInode) : Nat := if Mapped n then slotCount n else 0

section
variable {v : Volume} {leaked : ι → Finset Nat} {s : BlockState ι} {i j : ι} {b : Nat}

theorem mem_slotBlocks : b ∈ slotBlocks (s.inodes i) ↔ ∃ k, Holds s.inodes i k b := by
  unfold slotBlocks Holds
  split_ifs with mapped
  · simp only [Finset.mem_image, Finset.mem_filter, Finset.mem_range, mapped, true_and]
    constructor
    · rintro ⟨k, ⟨slot, some⟩, rfl⟩
      exact ⟨k, slot, rfl, some⟩
    · rintro ⟨k, slot, rfl, some⟩
      exact ⟨k, ⟨slot, some⟩, rfl⟩
  · simp [mapped]

namespace ConsistentUpTo

theorem slotBlocks_card (ok : ConsistentUpTo v leaked s) : (slotBlocks (s.inodes i)).card = slotTotal (s.inodes i) := by
  unfold slotBlocks slotTotal
  split_ifs with mapped
  · rw [Finset.card_image_of_injOn]
    · simp [slotCount, clearCount]
    · intro k member l member' same
      obtain ⟨slot, some⟩ := Finset.mem_filter.mp member
      obtain ⟨slot', -⟩ := Finset.mem_filter.mp member'
      exact (ok.once i k i l _ ⟨mapped, Finset.mem_range.mp slot, rfl, some⟩
        ⟨mapped, Finset.mem_range.mp slot', same.symm, some⟩).2
  · rfl

/-- The blocks of an inode: those its slots name and those it has leaked. -/
theorem own_disjoint (ok : ConsistentUpTo v leaked s) (other : i ≠ j) :
    Disjoint (slotBlocks (s.inodes i) ∪ leaked i) (slotBlocks (s.inodes j) ∪ leaked j) := by
  rw [Finset.disjoint_left]
  intro b mine theirs
  rw [Finset.mem_union, mem_slotBlocks] at mine theirs
  obtain ⟨k, held⟩ | leak := mine
  · obtain ⟨l, held'⟩ | leak' := theirs
    · exact other (ok.once i k j l b held held').1
    · exact ok.leakedApart j b leak' i k held
  · obtain ⟨l, held'⟩ | leak' := theirs
    · exact ok.leakedApart i b leak j l held'
    · exact other (ok.leakedOnce i j b leak leak')

theorem own_card (ok : ConsistentUpTo v leaked s) :
    (slotBlocks (s.inodes i) ∪ leaked i).card = slotTotal (s.inodes i) + (leaked i).card := by
  rw [Finset.card_union_of_disjoint, ok.slotBlocks_card]
  rw [Finset.disjoint_left]
  intro b mine leak
  obtain ⟨k, held⟩ := mem_slotBlocks.mp mine
  exact ok.leakedApart i b leak i k held

variable [Fintype ι]

theorem own_data (ok : ConsistentUpTo v leaked s)
    (member : b ∈ Finset.univ.biUnion fun i => slotBlocks (s.inodes i) ∪ leaked i) : DataBlock v.toSuperBlock b := by
  obtain ⟨i, -, own⟩ := Finset.mem_biUnion.mp member
  obtain held | leak := Finset.mem_union.mp own
  · obtain ⟨k, held⟩ := mem_slotBlocks.mp held
    exact ok.data i k b held
  · exact ok.leakedData i b leak

/-- A set bit is that of a structure of the group or of a block in use. -/
theorem group_setCount (ok : ConsistentUpTo v leaked s) {g : Nat} (inside : g < groupsCount v.toSuperBlock) :
    setCount (s.bitmap g) (nblocks v.toSuperBlock g) =
      setCount (bitsOf v.toSuperBlock (Metadata v.toSuperBlock) g) (nblocks v.toSuperBlock g) +
      setCount (bitsOf v.toSuperBlock (· ∈ Finset.univ.biUnion fun i => slotBlocks (s.inodes i) ∪ leaked i) g)
        (nblocks v.toSuperBlock g) := by
  refine setCount_union (fun k bound zone => ?_) fun k bound => ?_
  · have zone := of_decide_eq_true zone
    exact decide_eq_false fun own => (ok.own_data own).2.2 zone
  · rw [Bool.eq_iff_iff, Bool.or_eq_true]
    unfold bitsOf
    rw [decide_eq_true_eq, decide_eq_true_eq, ok.bits g inside k bound]
    refine or_congr_right ?_
    simp only [Finset.mem_biUnion, Finset.mem_univ, true_and, Finset.mem_union, mem_slotBlocks, exists_or]

end ConsistentUpTo

/-! ### Totals -/

/-- Every group has a descriptor. -/
theorem sum_descriptors (sb : SuperBlock) (count : Nat → Nat) :
    (((List.range (groupsCount sb)).filterMap (ext2GetGroupDesc sb)).map count).sum =
      ∑ g ∈ Finset.range (groupsCount sb), count g := by
  have all : ∀ gs : List Nat, (∀ g ∈ gs, g < groupsCount sb) → gs.filterMap (ext2GetGroupDesc sb) = gs := by
    intro gs inside
    induction gs with
    | nil => rfl
    | cons g gs ih =>
      rw [List.filterMap_cons_some (getGroupDesc_inside (inside g List.mem_cons_self)),
        ih fun h later => inside h (List.mem_cons_of_mem _ later)]
  rw [all _ fun g member => List.mem_range.mp member]
  rfl

theorem overhead_eq : overhead v.toSuperBlock =
    (v.firstDataBlock + groupsCount v.toSuperBlock * (1 + gdbCount v.toSuperBlock + (2 + v.itbPerGroup))) % 2 ^ 64 := by
  have each : (fun i => ext2BgHasSuper v.toSuperBlock i + ext2BgNumGdb v.toSuperBlock i) =
      fun _ => 1 + gdbCount v.toSuperBlock := rfl
  unfold overhead
  rw [each, List.map_const', List.sum_replicate, List.length_range, Nat.nsmul_eq_mul,
    Nat.mul_add _ (1 + gdbCount v.toSuperBlock), Nat.add_assoc]

/-- The structures, the free blocks and the blocks of the inodes make up the volume. -/
theorem ConsistentUpTo.volume_total [Fintype ι] (ok : ConsistentUpTo v leaked s) (laid : LaidOut v) :
    v.firstDataBlock + groupsCount v.toSuperBlock * (1 + gdbCount v.toSuperBlock + (2 + v.itbPerGroup)) +
        (ext2CountFreeBlocks v.toSuperBlock s + ((∑ i, slotTotal (s.inodes i)) + ∑ i, (leaked i).card)) =
      v.blocksCount := by
  have blocks := v.blocks
  set owned := Finset.univ.biUnion fun i => slotBlocks (s.inodes i) ∪ leaked i
  have free : ext2CountFreeBlocks v.toSuperBlock s =
      ∑ g ∈ Finset.range (groupsCount v.toSuperBlock), clearCount (s.bitmap g) (nblocks v.toSuperBlock g) :=
    (sum_descriptors _ _).trans (Finset.sum_congr rfl fun g inside => ok.counts g (Finset.mem_range.mp inside))
  have ownedCard : owned.card = (∑ i, slotTotal (s.inodes i)) + ∑ i, (leaked i).card := by
    rw [Finset.card_biUnion fun i _ j _ other => ok.own_disjoint other, ← Finset.sum_add_distrib]
    exact Finset.sum_congr rfl fun i _ => ok.own_card
  have used : ∑ g ∈ Finset.range (groupsCount v.toSuperBlock), setCount (s.bitmap g) (nblocks v.toSuperBlock g) =
      groupsCount v.toSuperBlock * (1 + gdbCount v.toSuperBlock + (2 + v.itbPerGroup)) + owned.card := by
    rw [← volume_setCount fun b member => ⟨(ok.own_data member).1, (ok.own_data member).2.1⟩, ← bitsOf_count,
      Finset.sum_congr rfl fun g inside => (ok.group_setCount (Finset.mem_range.mp inside)).trans
        (congrArg (· + _) (metadata_count laid (Finset.mem_range.mp inside))),
      Finset.sum_add_distrib, Finset.sum_const, Finset.card_range, Nat.nsmul_eq_mul]
  have all : ∑ g ∈ Finset.range (groupsCount v.toSuperBlock),
      (clearCount (s.bitmap g) (nblocks v.toSuperBlock g) + setCount (s.bitmap g) (nblocks v.toSuperBlock g)) =
      v.blocksCount - v.firstDataBlock := by
    have every : ∀ n, setCount (fun _ => decide True) n = n := fun n => by simp [setCount_eq_card]
    have whole := bitsOf_count (v := v) fun _ => True
    rw [every] at whole
    rw [← whole]
    exact Finset.sum_congr rfl fun g _ => (clear_add_set _ _).trans (every _).symm
  rw [Finset.sum_add_distrib, ← free, used] at all
  omega

end

section
variable {v : InodeVolume} {s : InodeState τ}

/-- A set bit for each inode in use. -/
theorem Settled.live_counted (settled : Settled v s) :
    s.live.length ≤ ∑ g ∈ Finset.range (groupsCount v.toSuperBlock), setCount (s.inodeBitmap g) v.inodesPerGroup := by
  have groups := Nat.succ_pred_eq_of_pos (groupsCount_pos (v := v.toVolume))
  set flat : Bits := fun k => s.inodeBitmap (k / v.inodesPerGroup) (k % v.inodesPerGroup)
  have split := clearCount_groups (fun k => !flat k) v.inodesPerGroup (groupsCount v.toSuperBlock - 1) v.inodesPerGroup
  have rows : (groupsCount v.toSuperBlock - 1) * v.inodesPerGroup + v.inodesPerGroup = v.inodesCount := by
    rw [v.total, ← Nat.succ_mul]
    exact congrArg (· * v.inodesPerGroup) groups
  have total : ∑ g ∈ Finset.range (groupsCount v.toSuperBlock), setCount (s.inodeBitmap g) v.inodesPerGroup =
      setCount flat v.inodesCount := by
    rw [rows] at split
    rw [setCount, ← split]
    refine Finset.sum_congr (congrArg Finset.range groups.symm) fun g _ => ?_
    rw [ite_self]
    refine clearCount_congr fun k inside => ?_
    simp only [flat]
    rw [Nat.mul_comm, Nat.mul_add_div v.inodes.1, Nat.div_eq_of_lt inside, Nat.mul_add_mod, Nat.mod_eq_of_lt inside,
      Nat.add_zero]
  have distinct : (s.live.map fun x => x.iNo - 1).Nodup := by
    have shifted : s.live.map (fun x => x.iNo - 1) = (s.live.map LiveInode.iNo).map (· - 1) := by
      rw [List.map_map]
      rfl
    rw [shifted]
    refine List.Nodup.map_on ?_ settled.nodup
    intro m member n member' same
    obtain ⟨x, xMember, rfl⟩ := List.mem_map.mp member
    obtain ⟨y, yMember, rfl⟩ := List.mem_map.mp member'
    have low := (settled.kind x xMember).1.1
    have low' := (settled.kind y yMember).1.1
    omega
  rw [total, setCount_eq_card, ← List.length_map fun x : LiveInode => x.iNo - 1, ← List.toFinset_card_of_nodup distinct]
  refine Finset.card_le_card fun k member => ?_
  obtain ⟨x, xMember, rfl⟩ := List.mem_map.mp (List.mem_toFinset.mp member)
  obtain ⟨low, high⟩ := (settled.kind x xMember).1
  obtain ⟨group, bit, number⟩ := inodeNumber_split low high
  refine Finset.mem_filter.mpr ⟨Finset.mem_range.mpr (by omega), settled.bits _ group _ bit (Or.inr ?_)⟩
  rw [number]
  exact List.mem_map_of_mem xMember

theorem Settled.inodes_total (settled : Settled v s) :
    v.inodesCount = ext2CountFreeInodes v.toSuperBlock s +
      ∑ g ∈ Finset.range (groupsCount v.toSuperBlock), setCount (s.inodeBitmap g) v.inodesPerGroup := by
  unfold ext2CountFreeInodes
  rw [sum_descriptors, Finset.sum_congr rfl fun g inside => settled.counts.freeInodes g (Finset.mem_range.mp inside),
    ← Finset.sum_add_distrib, Finset.sum_congr rfl fun g _ => clear_add_set _ _, Finset.sum_const, Finset.card_range,
    Nat.nsmul_eq_mul]
  exact v.total

end

/-! ### Runs -/

inductive CountedCall (ι τ : Type) where
  | block (call : BlockCall ι)
  | inode (event : InodeEvent τ)
  | statfs

namespace CountedCall

def blockCall : CountedCall ι τ → Option (BlockCall ι)
  | block call => some call
  | _ => none

def inodeEvent : CountedCall ι τ → Option (InodeEvent τ)
  | inode event => some event
  | _ => none

end CountedCall

variable [DecidableEq ι] [DecidableEq τ]

inductive CountedStep (v : InodeVolume) (sUuid : Bytes.Image) :
    CountedState ι τ → CountedCall ι τ → CountedState ι τ → Prop
  | block (s : CountedState ι τ) (call : BlockCall ι) (t : BlockState ι) (step : CallStep v.toVolume s.blocks call t) :
      CountedStep v sUuid s (.block call) { s with blocks := t }
  | inode (s : CountedState ι τ) (event : InodeEvent τ) (t : InodeState τ) (step : InodeStep v s.inodes event t) :
      CountedStep v sUuid s (.inode event) { s with inodes := t }
  | statfs (s : CountedState ι τ) : CountedStep v sUuid s .statfs { s with info := (ext2Statfs v sUuid s).2 }

section
variable {v : InodeVolume} {sUuid : Bytes.Image} {s t : CountedState ι τ}

/-- The cached overhead is that of the block count it was computed for. -/
def Cached (v : InodeVolume) (info : StatfsInfo) : Prop :=
  info.sBlocksLast = v.blocksCount → info.sOverheadLast = overhead v.toSuperBlock

omit [DecidableEq ι] [DecidableEq τ] in
theorem statfs_cached (sUuid : Bytes.Image) (cached : Cached v s.info) :
    (ext2Statfs v sUuid s).2.sOverheadLast = overhead v.toSuperBlock := by
  simp only [ext2Statfs]
  split_ifs with stale
  · rfl
  · exact cached (not_not.mp stale)

theorem countedStep_cached {call : CountedCall ι τ} (cached : Cached v s.info) (step : CountedStep v sUuid s call t) :
    Cached v t.info := by
  cases step with
  | block _ _ _ => exact cached
  | inode _ _ _ => exact cached
  | statfs => exact fun _ => statfs_cached sUuid cached

theorem counted_blocks {calls : List (CountedCall ι τ)} (run : Steps (CountedStep v sUuid) s calls t) :
    Steps (CallStep v.toVolume) s.blocks (calls.filterMap CountedCall.blockCall) t.blocks := by
  refine run.project (fun s e t d step seen => ?_) fun s e t step seen => ?_
  · cases step with
    | block call t step =>
      cases seen
      exact step
    | inode _ _ _ => cases seen
    | statfs => cases seen
  · cases step with
    | block _ _ _ => cases seen
    | inode _ _ _ => rfl
    | statfs => rfl

theorem counted_inodes {calls : List (CountedCall ι τ)} (run : Steps (CountedStep v sUuid) s calls t) :
    Steps (InodeStep v) s.inodes (calls.filterMap CountedCall.inodeEvent) t.inodes := by
  refine run.project (fun s e t d step seen => ?_) fun s e t step seen => ?_
  · cases step with
    | inode event t step =>
      cases seen
      exact step
    | block _ _ _ => cases seen
    | statfs => cases seen
  · cases step with
    | inode _ _ _ => cases seen
    | block _ _ _ => rfl
    | statfs => rfl

/-- A block is free, a structure's, named by one slot or leaked; in `i_blocks` of the inodes, the blocks in
use are those that are not free as long as every truncation reads its bitmaps. When no inode call is in
progress, the inodes that are not free are those whose bit is set, the live ones among them. -/
theorem statfs_runs [Fintype ι] [Fintype τ] {calls : List (CountedCall ι τ)} (laid : LaidOut v.toVolume)
    (blocks : Consistent v.toVolume s.blocks) (inodes : Settled v s.inodes) (fresh : s.info.sBlocksLast = 0)
    (run : Steps (CountedStep v sUuid) s calls t) :
    (∃ leaked : ι → Finset Nat, ConsistentUpTo v.toVolume leaked t.blocks ∧
      (ext2Statfs v sUuid t).1.fBlocks = (ext2Statfs v sUuid t).1.fBfree +
        ((∑ i, slotTotal (t.blocks.inodes i)) + ∑ i, (leaked i).card) ∧
      ∀ i, (∀ call, .block call ∈ calls → call.inode = i → call.BitmapsRead) → leaked i = ∅) ∧
    ((∀ call, .block call ∈ calls → call.BitmapsRead) →
      ((ext2Statfs v sUuid t).1.fBlocks - (ext2Statfs v sUuid t).1.fBfree) * sectors v.toSuperBlock =
        ∑ i, if Mapped (t.blocks.inodes i) then (t.blocks.inodes i).iBlocks else 0) ∧
    (ext2Statfs v sUuid t).2.sFreeBlocksCount = (ext2Statfs v sUuid t).1.fBfree ∧
    ((∀ c, t.inodes.pc c = .idle) →
      (ext2Statfs v sUuid t).1.fFiles = (ext2Statfs v sUuid t).1.fFfree +
        ∑ g ∈ Finset.range (groupsCount v.toSuperBlock), setCount (t.inodes.inodeBitmap g) v.inodesPerGroup ∧
      t.inodes.live.length + (ext2Statfs v sUuid t).1.fFfree ≤ (ext2Statfs v sUuid t).1.fFiles) := by
  have volume := v.blocks
  obtain ⟨leaked, ok, kept⟩ := run_consistent (counted_blocks run) blocks
  have total := ok.volume_total laid
  have member : ∀ call, call ∈ calls.filterMap CountedCall.blockCall → CountedCall.block call ∈ calls := by
    intro call seen
    obtain ⟨other, member, same⟩ := List.mem_filterMap.mp seen
    cases other with
    | block _ => cases same; exact member
    | inode _ => cases same
    | statfs => cases same
  have cached := run.invariant (I := fun s => Cached v s.info) (fun _ _ _ kept step => countedStep_cached kept step)
    fun same => absurd (fresh.symm.trans same) (by omega)
  have fBlocks : (ext2Statfs v sUuid t).1.fBlocks = (ext2Statfs v sUuid t).1.fBfree +
      ((∑ i, slotTotal (t.blocks.inodes i)) + ∑ i, (leaked i).card) := by
    have last := statfs_cached sUuid cached
    rw [overhead_eq] at last
    change (v.blocksCount + 2 ^ 64 - (ext2Statfs v sUuid t).2.sOverheadLast) % 2 ^ 64 =
      ext2CountFreeBlocks v.toSuperBlock t.blocks + _
    rw [last]
    omega
  refine ⟨⟨leaked, ok, fBlocks, fun i read => kept i fun call seen => read call (member call seen)⟩, fun read => ?_, ?_,
    fun idle => ?_⟩
  · have none : ∀ i, leaked i = ∅ := fun i => kept i fun call seen _ => read call (member call seen)
    have noLeak : ∑ i, (leaked i).card = 0 := Finset.sum_eq_zero fun i _ => by rw [none i, Finset.card_empty]
    rw [fBlocks, Nat.add_sub_cancel_left, noLeak, Nat.add_zero, Finset.sum_mul]
    refine Finset.sum_congr rfl fun i _ => ?_
    unfold slotTotal
    split_ifs with mapped
    · rw [ok.blocks i mapped, none i, Finset.card_empty, Nat.add_zero]
    · exact Nat.zero_mul _
  · exact Nat.mod_eq_of_lt (show ext2CountFreeBlocks v.toSuperBlock t.blocks < 2 ^ 32 by omega)
  · have settled := (InodeInvariant.settled · idle) ((counted_inodes run).invariant
      (fun _ _ _ kept step => inodeStep_invariant kept step) inodes.invariant)
    have files := settled.inodes_total
    have live := settled.live_counted
    refine ⟨files, ?_⟩
    change t.inodes.live.length + ext2CountFreeInodes v.toSuperBlock t.inodes ≤ v.inodesCount
    omega

end

/-! ### A fresh volume -/

theorem smallVolume_laidOut : LaidOut smallVolume where
  super := by decide
  descriptors := by decide
  bitmaps := by decide
  blockBitmapOut := by decide
  inodeBitmapOut := by decide

/-- One file with one block, the ten reserved inodes, and no statistics asked for yet. -/
def oneFileCounted : CountedState Unit Bool := ⟨oneFile, freshVolume, ⟨0, 0, 0, 0⟩⟩

/-- The truncation to 0, with the bitmap read, between two looks. -/
def truncated : CountedState Unit Bool :=
  { oneFileCounted with
    blocks := ext2TruncateBlocks smallVolume.toSuperBlock (fun _ => .read) () 0 oneFile
    info := (ext2Statfs smallInodes (fun _ => 0) oneFileCounted).2 }

theorem statfs_runs_truncated :
    ((ext2Statfs smallInodes (fun _ => 0) truncated).1.fBlocks -
        (ext2Statfs smallInodes (fun _ => 0) truncated).1.fBfree) * sectors smallInodes.toSuperBlock = 0 ∧
      (ext2Statfs smallInodes (fun _ => 0) truncated).1.fBlocks = 11 := by
  have run : Steps (CountedStep smallInodes fun _ => 0) oneFileCounted
      [.statfs, .block (.truncateBlocks () 0 fun _ => .read)] truncated :=
    .cons (.statfs oneFileCounted) (.cons
      (.block _ _ _ (.truncateBlocks oneFile () 0 (fun _ => .read) (by decide))) (.nil _))
  obtain ⟨-, inUse, -⟩ := statfs_runs smallVolume_laidOut oneFile_consistent freshVolume_settled rfl run
  refine ⟨(inUse fun call member => ?_).trans (by decide), by decide⟩
  obtain same | same := List.mem_pair.mp member
  · cases same
  · cases same
    exact fun _ => Or.inr rfl

end OsLab.Ext2
