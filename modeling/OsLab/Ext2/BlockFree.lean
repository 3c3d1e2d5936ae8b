import Mathlib.Order.Interval.Finset.Nat
import OsLab.Ext2.BlockConsistency

/-!
# Freeing runs of blocks

The checks of `ext2_free_blocks` pass on every run of consecutive blocks that an inode
gives back, and the run lies in one group, so the call frees all of the run unless the
bitmap of the group cannot be read.
-/

namespace OsLab.Ext2
open Bitmap

variable {ι : Type} {v : Volume} {leaked : ι → Finset Nat} {s : BlockState ι} {i : ι} {a n : Nat}

/-! ### The checks -/

theorem dataBlocksValid_run (some : 0 < n) (data : ∀ c, a ≤ c → c < a + n → DataBlock v.toSuperBlock c) :
    ext2DataBlocksValid v.toSuperBlock a n = true := by
  have first := (data a le_rfl (by omega)).gt_first
  have last := (data (a + (n - 1)) (by omega) (by omega)).2.1
  have blocks := v.blocks.2
  have ends : endBlk a n = a + n - 1 := endBlk_eq some (by omega)
  have apart : ¬ (a ≤ sbBlock ∧ sbBlock ≤ a + n - 1) :=
    fun both => (data sbBlock both.1 (by omega)).ne_sbBlock rfl
  simp only [ext2DataBlocksValid, ends, apart, if_false]
  rw [if_neg (by omega), if_neg (by omega), if_neg (by omega)]

theorem dataBlocksValidBg_run (some : 0 < n) (data : ∀ c, a ≤ c → c < a + n → DataBlock v.toSuperBlock c) :
    ext2DataBlocksValidBg v.toSuperBlock (groupOf v.toSuperBlock a) a n = true := by
  have zones : ∀ k, k < n → ¬ Metadata v.toSuperBlock (a + k) := fun k within => (data _ (by omega) (by omega)).2.2
  have group : ∀ k, k < n → groupOf v.toSuperBlock (a + k) = groupOf v.toSuperBlock a :=
    fun k within => (groupOf_run data within).1
  have inside := groupOf_lt (data a le_rfl (by omega)).2.1
  have last := (data (a + (n - 1)) (by omega) (by omega)).2.1
  have blocks := v.blocks.2
  have ends : endBlk a n = a + n - 1 := endBlk_eq some (by omega)
  have bitmaps : ∀ c, c = v.bgBlockBitmap (groupOf v.toSuperBlock a) ∨ c = v.bgInodeBitmap (groupOf v.toSuperBlock a) →
      inRange c a n = false := by
    intro c bitmap
    by_contra hit
    simp only [inRange, ends, Bool.not_eq_false, Bool.and_eq_true, decide_eq_true_eq] at hit
    have here := zones (c - a) (by omega)
    rw [Metadata, group _ (by omega), Nat.add_sub_cancel' hit.1] at here
    rcases bitmap with rfl | rfl <;> simp at here
  have table : ∀ k, k < n →
      inRange (a + k) (v.bgInodeTable (groupOf v.toSuperBlock a)) v.itbPerGroup = false := by
    intro k within
    by_contra hit
    obtain ⟨start, finish⟩ := v.inodeTable _ inside
    have highest := (last_lt inside).2.1
    have tableEnds : endBlk (v.bgInodeTable (groupOf v.toSuperBlock a)) v.itbPerGroup =
        v.bgInodeTable (groupOf v.toSuperBlock a) + v.itbPerGroup - 1 := endBlk_pos (by omega) (by omega)
    simp only [inRange, tableEnds, Bool.not_eq_false, Bool.and_eq_true, decide_eq_true_eq] at hit
    have here := zones k within
    rw [Metadata, group k within] at here
    simp only [not_or, not_and, Nat.not_lt] at here
    have beyond := here.2.2.2.2.2 hit.1
    omega
  have first := table 0 some
  have final := table (n - 1) (by omega)
  rw [← Nat.add_sub_assoc some] at final
  rw [Nat.add_zero] at first
  simp only [ext2DataBlocksValidBg, ends, bitmaps _ (Or.inl rfl), bitmaps _ (Or.inr rfl), first, final,
    Bool.false_eq_true, if_false]
  rw [if_neg (by omega)]

namespace ConsistentUpTo

/-- The bits of metadata are set, which is what `ext2_block_bitmap_valid` asks for. -/
theorem marked (ok : ConsistentUpTo v leaked s) {g c : Nat} (inside : g < groupsCount v.toSuperBlock)
    (low : ext2GroupFirstBlockNo v.toSuperBlock g ≤ c) (high : c ≤ ext2GroupLastBlockNo v.toSuperBlock g)
    (zone : groupOf v.toSuperBlock c = g → Metadata v.toSuperBlock c) :
    s.bitmap g (c - ext2GroupFirstBlockNo v.toSuperBlock g) = true := by
  have bound : c - ext2GroupFirstBlockNo v.toSuperBlock g < nblocks v.toSuperBlock g := by
    unfold nblocks
    omega
  have size := nblocks_le inside
  have group := groupOf_add (v := v) (g := g) (show c - ext2GroupFirstBlockNo v.toSuperBlock g < v.blocksPerGroup by omega)
  refine (ok.bits _ inside _ bound).mpr (Or.inl ?_)
  rw [Nat.add_sub_cancel' low] at group ⊢
  exact zone group

theorem bitmapValid (ok : ConsistentUpTo v leaked s) {g : Nat} (inside : g < groupsCount v.toSuperBlock) :
    ext2BlockBitmapValid v.toSuperBlock g g (s.bitmap g) = true := by
  have bb := v.blockBitmap _ inside
  have ib := v.inodeBitmap _ inside
  obtain ⟨itLow, itHigh⟩ := v.inodeTable _ inside
  have first := ok.marked inside bb.1 bb.2 fun same => by unfold Metadata; rw [same]; simp
  have second := ok.marked inside ib.1 ib.2 fun same => by unfold Metadata; rw [same]; simp
  have third : findNextZero (s.bitmap g)
      (v.bgInodeTable g - ext2GroupFirstBlockNo v.toSuperBlock g + v.itbPerGroup)
      (v.bgInodeTable g - ext2GroupFirstBlockNo v.toSuperBlock g) = _ :=
    findNextZero_full fun k low high => by
      have bit := ok.marked (c := ext2GroupFirstBlockNo v.toSuperBlock g + k) inside (by omega) (by omega)
        fun same => by unfold Metadata; rw [same]; right; right; right; right; right; omega
      rwa [Nat.add_sub_cancel_left] at bit
  simp only [ext2BlockBitmapValid, first, second, third, Nat.lt_irrefl, decide_false, Bool.and_self, Bool.not_false]

/-- In a consistent state only the device keeps a bitmap from being read. -/
theorem readBlockBitmap (ok : ConsistentUpTo v leaked s) {g : Nat} (inside : g < groupsCount v.toSuperBlock)
    (bh : BhRead) :
    bh.Succeeds ∧ ext2ReadBlockBitmap v.toSuperBlock bh s g = some (s.bitmap g) ∨
      ¬ bh.Succeeds ∧ ext2ReadBlockBitmap v.toSuperBlock bh s g = none := by
  unfold ext2ReadBlockBitmap BhRead.Succeeds
  rw [getGroupDesc_inside inside]
  cases bh with
  | noBuffer => simp
  | uptodate => simp
  | readError => simp
  | read => simp [ok.bitmapValid inside]

theorem run_bits (ok : ConsistentUpTo v leaked s) (some : 0 < n) (run : Finset.Ico a (a + n) ⊆ leaked i) :
    groupOf v.toSuperBlock a < groupsCount v.toSuperBlock ∧
      bitOf v.toSuperBlock a + n ≤ nblocks v.toSuperBlock (groupOf v.toSuperBlock a) ∧
      ∀ k, k < n → ext2GroupFirstBlockNo v.toSuperBlock (groupOf v.toSuperBlock a) + (bitOf v.toSuperBlock a + k) =
        a + k ∧ s.bitmap (groupOf v.toSuperBlock a) (bitOf v.toSuperBlock a + k) = true := by
  have data : ∀ c, a ≤ c → c < a + n → DataBlock v.toSuperBlock c :=
    fun c low high => ok.leakedData i c (run (Finset.mem_Ico.mpr ⟨low, high⟩))
  have first := data a le_rfl (by omega)
  have inside := groupOf_lt first.2.1
  have last := data (a + (n - 1)) (by omega) (by omega)
  obtain ⟨lastGroup, lastBit⟩ := groupOf_run data (show n - 1 < n by omega)
  have bound := bitOf_lt last.1 last.2.1
  rw [lastGroup, lastBit] at bound
  refine ⟨inside, by omega, fun k within => ?_⟩
  have block : ext2GroupFirstBlockNo v.toSuperBlock (groupOf v.toSuperBlock a) + (bitOf v.toSuperBlock a + k) =
      a + k := by
    rw [← Nat.add_assoc, first_add_bitOf first.1]
  refine ⟨block, (ok.bits _ inside _ (by omega)).mpr (Or.inr (Or.inr ⟨i, ?_⟩))⟩
  rw [block]
  exact run (Finset.mem_Ico.mpr ⟨by omega, by omega⟩)

theorem freed_blocks (ok : ConsistentUpTo v leaked s) (mapped : Mapped (s.inodes i))
    (run : Finset.Ico a (a + n) ⊆ leaked i) :
    (s.inodes i).iBlocks - n * sectors v.toSuperBlock =
      (slotCount (s.inodes i) + (leaked i \ Finset.Ico a (a + n)).card) * sectors v.toSuperBlock := by
  have card : (leaked i \ Finset.Ico a (a + n)).card + n = (leaked i).card := by
    have split := Finset.card_sdiff_add_card_eq_card run
    rwa [Nat.card_Ico, Nat.add_sub_cancel_left] at split
  rw [ok.blocks i mapped, ← card, ← Nat.add_assoc, Nat.add_mul _ n, Nat.add_sub_cancel]

theorem freed_mapped (ok : ConsistentUpTo v leaked s) (mapped : Mapped (s.inodes i))
    (run : Finset.Ico a (a + n) ⊆ leaked i) :
    Mapped { s.inodes i with iBlocks := (s.inodes i).iBlocks - n * sectors v.toSuperBlock } :=
  mapped_of_blocks mapped.kinds sectors_pos (ok.freed_blocks mapped run)

end ConsistentUpTo

/-! ### The freed run -/

variable [DecidableEq ι]

/-- The `n` blocks from `a` on given back by the inode. -/
def freeRun (sb : SuperBlock) (i : ι) (a n : Nat) (s : BlockState ι) : BlockState ι where
  bitmap := Function.update s.bitmap (groupOf sb a) (fill (s.bitmap (groupOf sb a)) (bitOf sb a) n false)
  bgFreeBlocksCount := Function.update s.bgFreeBlocksCount (groupOf sb a)
    ((s.bgFreeBlocksCount (groupOf sb a) + (n : Int)) % 2 ^ 16).toNat
  sFreeblocksCounter := s.sFreeblocksCounter + n
  inodes := Function.update s.inodes i { s.inodes i with iBlocks := (s.inodes i).iBlocks - n * sectors sb }

namespace ConsistentUpTo

theorem freeBlocks (ok : ConsistentUpTo v leaked s) (some : 0 < n) (run : Finset.Ico a (a + n) ⊆ leaked i)
    (bh : BhRead) :
    bh.Succeeds ∧ ext2FreeBlocks v.toSuperBlock bh i a n s = freeRun v.toSuperBlock i a n s ∨
      ¬ bh.Succeeds ∧ ext2FreeBlocks v.toSuperBlock bh i a n s = s := by
  obtain ⟨inside, fits, set⟩ := ok.run_bits some run
  have data : ∀ c, a ≤ c → c < a + n → DataBlock v.toSuperBlock c :=
    fun c low high => ok.leakedData i c (run (Finset.mem_Ico.mpr ⟨low, high⟩))
  have marks : ∀ k, bitOf v.toSuperBlock a ≤ k → k < bitOf v.toSuperBlock a + n →
      s.bitmap (groupOf v.toSuperBlock a) k = true := fun k low high => by
    have bit := (set (k - bitOf v.toSuperBlock a) (by omega)).2
    rwa [Nat.add_sub_cancel' low] at bit
  have cleared := clearRun_set marks
  have nonzero : (n : Int) ≠ 0 := by omega
  have highest := (data (a + (n - 1)) (by omega) (by omega)).2.1
  have blocks := v.blocks.2
  have small : n % 2 ^ 32 = n := Nat.mod_eq_of_lt (by omega)
  unfold ext2FreeBlocks
  rw [small, if_pos (dataBlocksValid_run some data)]
  have group : (a - v.firstDataBlock) / v.blocksPerGroup = groupOf v.toSuperBlock a := rfl
  have bit : (a - v.firstDataBlock) % v.blocksPerGroup = bitOf v.toSuperBlock a := rfl
  simp only [group, bit, getGroupDesc_inside inside]
  rcases ok.readBlockBitmap inside bh with ⟨succeeds, read⟩ | ⟨fails, read⟩
  · refine Or.inl ⟨succeeds, ?_⟩
    simp only [read, dataBlocksValidBg_run some data, if_true, cleared, groupUpdateFreeBlocks, nonzero, if_false,
      Nat.ne_of_gt some, not_false_eq_true, ne_eq, mul_blocksize, freeRun]
  · exact Or.inr ⟨fails, by simp only [read]⟩

theorem free (ok : ConsistentUpTo v leaked s) (mapped : Mapped (s.inodes i)) (some : 0 < n)
    (run : Finset.Ico a (a + n) ⊆ leaked i) :
    ConsistentUpTo v (Function.update leaked i (leaked i \ Finset.Ico a (a + n)))
      (freeRun v.toSuperBlock i a n s) := by
  obtain ⟨inside, fits, set⟩ := ok.run_bits some run
  have member : ∀ j c, c ∈ Function.update leaked i (leaked i \ Finset.Ico a (a + n)) j ↔
      c ∈ leaked j ∧ c ∉ Finset.Ico a (a + n) := by
    intro j c
    by_cases same : j = i
    · subst same
      simp
    · simp only [Function.update_of_ne same, iff_self_and]
      exact fun leak inRun => same (ok.leakedOnce j i c leak (run inRun))
  have mapped' := ok.freed_mapped mapped run
  have holds : ∀ j l c, Holds (freeRun v.toSuperBlock i a n s).inodes j l c ↔ Holds s.inodes j l c :=
    fun j l c => holds_iBlocks mapped mapped'
  have marks : ∀ k, bitOf v.toSuperBlock a ≤ k → k < bitOf v.toSuperBlock a + n →
      s.bitmap (groupOf v.toSuperBlock a) k = true := fun k low high => by
    have bit := (set (k - bitOf v.toSuperBlock a) (by omega)).2
    rwa [Nat.add_sub_cancel' low] at bit
  have count := clearCount_fill_false fits marks
  have before := ok.counts _ inside
  have size := count_small _ inside
    (fill (s.bitmap (groupOf v.toSuperBlock a)) (bitOf v.toSuperBlock a) n false)
  have after : ((s.bgFreeBlocksCount (groupOf v.toSuperBlock a) + (n : Int)) % 2 ^ 16).toNat =
      clearCount (fill (s.bitmap (groupOf v.toSuperBlock a)) (bitOf v.toSuperBlock a) n false)
        (nblocks v.toSuperBlock (groupOf v.toSuperBlock a)) := by omega
  constructor
  · exact fun j l c now => ok.data j l c ((holds j l c).mp now)
  · exact fun j l j' l' c now now' => ok.once j l j' l' c ((holds j l c).mp now) ((holds j' l' c).mp now')
  · exact fun j c leak => ok.leakedData j c ((member j c).mp leak).1
  · exact fun j c leak j' l now => ok.leakedApart j c ((member j c).mp leak).1 j' l ((holds j' l c).mp now)
  · exact fun j j' c leak leak' => ok.leakedOnce j j' c ((member j c).mp leak).1 ((member j' c).mp leak').1
  · intro g inside' bit bound
    simp only [holds, member]
    have inRun : ext2GroupFirstBlockNo v.toSuperBlock g + bit ∈ Finset.Ico a (a + n) ↔
        g = groupOf v.toSuperBlock a ∧ bitOf v.toSuperBlock a ≤ bit ∧ bit < bitOf v.toSuperBlock a + n := by
      rw [Finset.mem_Ico]
      constructor
      · rintro ⟨low, high⟩
        have block := (set (ext2GroupFirstBlockNo v.toSuperBlock g + bit - a) (by omega)).1
        obtain ⟨group, offset⟩ := block_inj inside' inside bound (by omega)
          (show _ = ext2GroupFirstBlockNo v.toSuperBlock (groupOf v.toSuperBlock a) +
            (bitOf v.toSuperBlock a + (ext2GroupFirstBlockNo v.toSuperBlock g + bit - a)) by omega)
        exact ⟨group, by omega, by omega⟩
      · rintro ⟨rfl, low, high⟩
        have block := (set (bit - bitOf v.toSuperBlock a) (by omega)).1
        rw [Nat.add_sub_cancel' low] at block
        omega
    by_cases freed : g = groupOf v.toSuperBlock a ∧ bitOf v.toSuperBlock a ≤ bit ∧ bit < bitOf v.toSuperBlock a + n
    · have leak := run (inRun.mpr freed)
      obtain ⟨rfl, low, high⟩ := freed
      simp only [freeRun, Function.update_self, fill_inside false low high, Bool.false_eq_true, false_iff, not_or,
        not_exists, not_and, not_not]
      exact ⟨(ok.leakedData i _ leak).2.2, ok.leakedApart i _ leak, fun _ _ => inRun.mpr ⟨rfl, low, high⟩⟩
    · have bitmap : (freeRun v.toSuperBlock i a n s).bitmap g bit = s.bitmap g bit := by
        by_cases group : g = groupOf v.toSuperBlock a
        · subst group
          simp only [freeRun, Function.update_self]
          exact fill_outside false (by omega)
        · simp only [freeRun, Function.update_of_ne group]
      simp only [bitmap, mt inRun.mp freed, not_false_eq_true, and_true]
      exact ok.bits g inside' bit bound
  · intro g inside'
    by_cases group : g = groupOf v.toSuperBlock a
    · subst group
      simp only [freeRun, Function.update_self, after]
    · simp only [freeRun, Function.update_of_ne group]
      exact ok.counts g inside'
  · simp only [freeRun, sum_update inside, ok.counter, before]
    omega
  · intro j now
    by_cases same : j = i
    · subst same
      simp only [freeRun, Function.update_self]
      exact ok.freed_blocks mapped run
    · simp only [freeRun, Function.update_of_ne same] at now ⊢
      exact ok.blocks j now

end ConsistentUpTo

end OsLab.Ext2
