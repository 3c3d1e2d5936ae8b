import OsLab.Ext2.BlockRuns
import OsLab.Ext2.FileData
import OsLab.Ext2.FreeData

/-!
# The slots of files

What one call of `ext2_get_block` or `ext2_truncate_blocks` does to the slots of an inode, and
which bytes the files then show.
-/

namespace OsLab.Ext2
open Bitmap Runs

variable {ι : Type} {v : Volume} {leaked : ι → Finset Nat} {b c : BlockState ι} {i : ι}

/-! ### Slots -/

section
variable [DecidableEq ι]

theorem freeDataLoop_iData {sb : SuperBlock} {bh : Nat → BhRead} (left p block count : Nat) (l : Nat) :
    ((freeDataLoop sb bh i left p block count b).inodes i).iData l =
      if p ≤ l ∧ l < p + left then 0 else (b.inodes i).iData l := by
  induction left generalizing p block count b with
  | zero =>
    rw [if_neg (by omega)]
    unfold freeDataLoop
    split_ifs
    · rw [freeBlocks_iData]
    · rfl
  | succ left ih =>
    have split : ∀ x : Nat, (if p + 1 ≤ l ∧ l < p + 1 + left then 0 else if l = p then 0 else x) =
        if p ≤ l ∧ l < p + (left + 1) then 0 else x := by
      intro x
      split_ifs <;> first | rfl | omega
    have emptied : ((setSlot i p 0 b).inodes i).iData l = if l = p then 0 else (b.inodes i).iData l := by
      simp only [setSlot, Function.update_self, Function.update_apply]
    unfold freeDataLoop
    simp only
    by_cases hole : (b.inodes i).iData p = 0
    · rw [if_neg (not_not.mpr hole), ih, ← split]
      by_cases here : l = p
      · subst here
        rw [if_neg (by omega), if_neg (by omega), if_pos rfl, hole]
      · rw [if_neg here]
    · rw [if_pos hole]
      by_cases first : count = 0
      · rw [if_pos first, ih, emptied, split]
      · rw [if_neg first]
        by_cases run : block = (b.inodes i).iData p - count
        · rw [if_pos run, ih, emptied, split]
        · rw [if_neg run, ih, freeBlocks_iData, emptied, split]

/-- The slots behind the size are emptied. -/
theorem truncateBlocks_iData (mapped : Mapped (b.inodes i)) (bh : Nat → BhRead) (size : Nat) {l : Nat} (slot : l < ndirBlocks) :
    ((ext2TruncateBlocks v.toSuperBlock bh i size b).inodes i).iData l =
      if size ≤ l * blocksize v.toSuperBlock then 0 else (b.inodes i).iData l := by
  have positive : 0 < blocksize v.toSuperBlock := Nat.lt_of_lt_of_le (by decide) blocksize_ge
  have ceil : (size + blocksize v.toSuperBlock - 1) >>> v.blocksizeBits ≤ l ↔ size ≤ l * blocksize v.toSuperBlock := by
    rw [Nat.shiftRight_eq_div_pow]
    show (size + blocksize v.toSuperBlock - 1) / blocksize v.toSuperBlock ≤ l ↔ _
    rw [← Nat.lt_succ_iff, Nat.div_lt_iff_lt_mul positive, Nat.succ_mul]
    omega
  have notFast : ¬ ext2InodeIsFastSymlink (b.inodes i) ∨ ∀ k, k < ndirBlocks → (b.inodes i).iData k = 0 := by
    rcases mapped with reg | dir | ⟨lnk, some | empty⟩
    · exact .inl (by simp [ext2InodeIsFastSymlink, reg])
    · exact .inl (by simp [ext2InodeIsFastSymlink, dir])
    · exact .inl (by simp [ext2InodeIsFastSymlink, some])
    · exact .inr empty
  unfold ext2TruncateBlocks
  simp only
  rw [if_neg (not_not.mpr mapped.kinds)]
  split_ifs with fast behind behind
  · exact (notFast.resolve_left (not_not.mpr fast)) l slot
  · rfl
  · unfold ext2FreeData
    rw [freeDataLoop_iData, if_pos]
    have low := ceil.mpr behind
    omega
  · unfold ext2FreeData
    rw [freeDataLoop_iData, if_neg fun inside => behind (ceil.mp inside.1)]

end

/-! ### One call of `ext2_get_block` -/

/-- A new block `n`, which no inode has held, fills the slot `k` of `i`. -/
structure Filled (i : ι) (k n : Nat) (b c : BlockState ι) : Prop where
  hole : (b.inodes i).iData k = 0
  some : n ≠ 0
  fresh : ∀ j l, ¬ Holds b.inodes j l n
  others : ∀ j, j ≠ i → c.inodes j = b.inodes j
  mapped : Mapped (c.inodes i)
  slots : (c.inodes i).iData = Function.update (b.inodes i).iData k n

section
variable [DecidableEq ι]

theorem getBlocks_create (ok : ConsistentUpTo v leaked b) (mapped : Mapped (b.inodes i)) {k : Nat} (slot : k < ndirBlocks)
    (hole : (b.inodes i).iData k = 0) (counterRead : Nat) (bh : Nat → BhRead) :
    (ext2GetBlocks v.toSuperBlock counterRead bh i k true b).ret < 0 ∨
      ∃ n, Filled i k n b (ext2GetBlocks v.toSuperBlock counterRead bh i k true b).state ∧
        (ext2GetBlocks v.toSuperBlock counterRead bh i k true b).ret = 1 ∧
        (ext2GetBlocks v.toSuperBlock counterRead bh i k true b).bno = some n ∧
        (ext2GetBlocks v.toSuperBlock counterRead bh i k true b).new = true := by
  unfold ext2GetBlocks
  rw [if_neg (Nat.not_le.mpr slot)]
  simp only [hole, Nat.lt_irrefl, if_false, Bool.not_true, Bool.false_eq_true]
  obtain ⟨result, u, new⟩ : ∃ result u, ext2NewBlocks v.toSuperBlock counterRead bh i 1 b = (result, u) := ⟨_, _, rfl⟩
  rw [new]
  rw [newBlocks_search] at new
  split_ifs at new with full
  · obtain ⟨rfl, -⟩ := Prod.mk.inj new
    refine .inl ?_
    show (-enospc : Int) < 0
    decide
  · cases result with
    | error e => exact .inl (searchGroups_error new).1
    | ok found =>
      obtain ⟨resb, count⟩ := found
      obtain ⟨g, bit, inside, some, one, fits, clear, rfl, rfl⟩ := searchGroups_ok new
      obtain rfl : count = 1 := by omega
      obtain ⟨fresh, unheld, -⟩ := ok.clear inside (by omega) (clear bit le_rfl (by omega))
      rw [Nat.add_comm] at unheld fresh
      have positive := fresh.gt_first
      refine .inr ⟨_, ⟨hole, by omega, unheld, fun j other => ?_, ?_, ?_⟩, rfl, rfl, rfl⟩
      · simp [setSlot, Function.update_of_ne other]
      · have grown : 0 < 1 * blocksize v.toSuperBlock / 512 := by
          rw [mul_blocksize, Nat.one_mul]
          exact sectors_pos
        simp only [setSlot, Function.update_self]
        rcases mapped.kinds with reg | dir | lnk
        · exact .inl reg
        · exact .inr (.inl dir)
        · exact .inr (.inr ⟨lnk, .inl (by simp only; omega)⟩)
      · simp only [setSlot, Function.update_self]

/-- What a call with `create` does for the slot `k` of `i`. -/
inductive GotBlock (i : ι) (k : Nat) (b : BlockState ι) : Int × BufferHead × BlockState ι → Prop
  | failed {ret : Int} {head : BufferHead} (negative : ret < 0) : GotBlock i k b (ret, head, b)
  | found {head : BufferHead} (block : head.mapped = some ((b.inodes i).iData k)) (old : head.new = false)
      (some : (b.inodes i).iData k ≠ 0) : GotBlock i k b (0, head, b)
  | filled {head : BufferHead} {n : Nat} {c : BlockState ι} (block : head.mapped = some n) (new : head.new = true)
      (filled : Filled i k n b c) : GotBlock i k b (0, head, c)

theorem getBlock_create (ok : ConsistentUpTo v leaked b) (mapped : Mapped (b.inodes i)) {k : Nat} (slot : k < ndirBlocks)
    (counterRead : Nat) (bh : Nat → BhRead) :
    GotBlock i k b (ext2GetBlock v.toSuperBlock counterRead bh i k (unmapped v.toSuperBlock) true b) := by
  unfold ext2GetBlock
  simp only
  by_cases hole : (b.inodes i).iData k = 0
  · rcases getBlocks_create ok mapped slot hole counterRead bh with failed | ⟨n, filled, ret, bno, new⟩
    · rw [if_pos failed.le, getBlocks_failed failed]
      exact .failed failed
    · rw [if_neg (by omega)]
      exact .filled bno (by simp [new]) filled
  · have found : ext2GetBlocks v.toSuperBlock counterRead bh i k true b = ⟨1, some ((b.inodes i).iData k), false, b⟩ := by
      unfold ext2GetBlocks
      rw [if_neg (Nat.not_le.mpr slot)]
      exact if_pos (Nat.pos_of_ne_zero hole)
    rw [found]
    exact .found rfl rfl hole

theorem getBlock_consistent (ok : ConsistentUpTo v leaked b) (mapped : Mapped (b.inodes i)) (counterRead : Nat)
    (bh : Nat → BhRead) (k : Nat) :
    ConsistentUpTo v leaked (ext2GetBlock v.toSuperBlock counterRead bh i k (unmapped v.toSuperBlock) true b).2.2 := by
  have consistent := (getBlocks_consistent ok mapped counterRead bh k true).1
  unfold ext2GetBlock
  simp only
  split_ifs
  · exact consistent
  · exact consistent

/-- Without `create` the slot is read. -/
theorem getBlock_read {k : Nat} (slot : k < ndirBlocks) (counterRead : Nat) (bh : Nat → BhRead) :
    ∃ head, ext2GetBlock v.toSuperBlock counterRead bh i k (unmapped v.toSuperBlock) false b = (0, head, b) ∧
      head.mapped = if (b.inodes i).iData k = 0 then none else some ((b.inodes i).iData k) := by
  unfold ext2GetBlock ext2GetBlocks
  rw [if_neg (Nat.not_le.mpr slot)]
  simp only
  by_cases hole : (b.inodes i).iData k = 0
  · rw [hole]
    exact ⟨_, rfl, rfl⟩
  · rw [if_pos (Nat.pos_of_ne_zero hole), if_neg hole]
    exact ⟨_, rfl, rfl⟩

end

/-! ### Bytes of a slot -/

def slotByte (s : FileState ι) (i : ι) (k off : Nat) : UInt8 :=
  if (s.blocks.inodes i).iData k = 0 then 0 else s.disk ((s.blocks.inodes i).iData k) off

section
variable {s t u : FileState ι} {k : Nat}

/-- No two slots share a block, so what is put into the block of one is not seen through another. -/
theorem slotByte_update (ok : ConsistentUpTo v leaked s.blocks) {n : Nat} (held : Holds s.blocks.inodes i k n)
    (bytes : Nat → UInt8) {j : ι} (mapped : Mapped (s.blocks.inodes j)) {l : Nat} (slot : l < ndirBlocks) (off : Nat)
    [Decidable (j = i ∧ l = k)] :
    slotByte { s with disk := Function.update s.disk n bytes } j l off =
      if j = i ∧ l = k then bytes off else slotByte s j l off := by
  unfold slotByte
  simp only
  by_cases here : j = i ∧ l = k
  · obtain ⟨rfl, rfl⟩ := here
    rw [held.2.2.1, if_neg held.2.2.2, Function.update_self, if_pos ⟨rfl, rfl⟩]
  · rw [if_neg here]
    by_cases hole : (s.blocks.inodes j).iData l = 0
    · rw [if_pos hole, if_pos hole]
    · have other : (s.blocks.inodes j).iData l ≠ n := fun same =>
        here (ok.once j l i k n ⟨mapped, slot, same, held.2.2.2⟩ held)
      rw [if_neg hole, if_neg hole, Function.update_of_ne other]

/-- The files show the same bytes as before. -/
structure SameFiles (s t : FileState ι) : Prop where
  size : t.size = s.size
  mapped : ∀ j, Mapped (t.blocks.inodes j) → Mapped (s.blocks.inodes j)
  bytes : ∀ j, Mapped (t.blocks.inodes j) → ∀ l, l < ndirBlocks → ∀ off, slotByte t j l off = slotByte s j l off

theorem SameFiles.refl : SameFiles s s := ⟨rfl, fun _ mapped => mapped, fun _ _ _ _ _ => rfl⟩

theorem SameFiles.trans (first : SameFiles s t) (second : SameFiles t u) : SameFiles s u where
  size := second.size.trans first.size
  mapped j mapped := first.mapped j (second.mapped j mapped)
  bytes j mapped l slot off :=
    (second.bytes j mapped l slot off).trans (first.bytes j (second.mapped j mapped) l slot off)

theorem Filled.holds {n : Nat} {c : BlockState ι} (filled : Filled i k n b c) (slot : k < ndirBlocks) :
    Holds c.inodes i k n :=
  ⟨filled.mapped, slot, by rw [filled.slots, Function.update_self], filled.some⟩

variable [DecidableEq ι]

/-- A new block that is zero shows the zeros that the hole has shown. -/
theorem Filled.sameFiles {n : Nat} {c : BlockState ι} (filled : Filled i k n s.blocks c) (mapped : Mapped (s.blocks.inodes i))
    (ok : ConsistentUpTo v leaked c) (slot : k < ndirBlocks) :
    SameFiles s { s with blocks := c, disk := Function.update s.disk n fun _ => 0 } where
  size := rfl
  mapped j mappedJ := by
    by_cases same : j = i
    · exact same ▸ mapped
    · rw [← filled.others j same]
      exact mappedJ
  bytes j mappedJ l inside off := by
    rw [slotByte_update (s := { s with blocks := c }) ok (filled.holds slot) (fun _ => 0) mappedJ inside off]
    by_cases here : j = i ∧ l = k
    · obtain ⟨rfl, rfl⟩ := here
      rw [if_pos ⟨rfl, rfl⟩]
      unfold slotByte
      rw [if_pos filled.hole]
    · have kept : (c.inodes j).iData l = (s.blocks.inodes j).iData l := by
        by_cases same : j = i
        · subst same
          rw [filled.slots, Function.update_of_ne fun slot => here ⟨rfl, slot⟩]
        · rw [filled.others j same]
      rw [if_neg here]
      unfold slotByte
      simp only [kept]

end

end OsLab.Ext2
