import Mathlib.Data.List.Chain
import OsLab.Ext2.FreeBlocks
import OsLab.Ext2.Inode

/-!
# The runs that are freed together

The loop of `ext2_free_data` over an array of block pointers of any length: the calls of
`ext2_free_blocks` that it makes, and what `ext2_truncate_blocks` makes of it.
-/

namespace OsLab.Ext2

/-! ### The loop over an array -/

/-- A call of `ext2_free_blocks`, made when the loop has come to `slot`. -/
structure FreeCall where
  slot : Nat
  block : Nat
  count : Nat
  deriving DecidableEq, Repr

/-- The slots after the loop and the calls, from the slot `p` on; the numbers are `unsigned long`s. -/
def freeDataArray (p : Nat) : List Nat → Nat → Nat → List Nat × List FreeCall
  | [], blockToFree, count => ([], if 0 < count then [⟨p, blockToFree, count⟩] else [])
  | nr :: rest, blockToFree, count =>
    if nr ≠ 0 then
      if count = 0 then
        let (slots, calls) := freeDataArray (p + 1) rest nr 1
        (0 :: slots, calls)
      else if blockToFree = (nr + 2 ^ 64 - count) % 2 ^ 64 then
        let (slots, calls) := freeDataArray (p + 1) rest blockToFree (count + 1)
        (0 :: slots, calls)
      else
        let (slots, calls) := freeDataArray (p + 1) rest nr 1
        (0 :: slots, ⟨p, blockToFree, count⟩ :: calls)
    else
      let (slots, calls) := freeDataArray (p + 1) rest blockToFree count
      (nr :: slots, calls)

/-- The calls cut the nonzero entries, in the order of the array, into maximal runs of consecutive numbers. -/
structure Coalesced (entries : List Nat) (calls : List FreeCall) : Prop where
  covers : calls.flatMap (fun c => List.range' c.block c.count) = entries.filter (· ≠ 0)
  some : ∀ c, c ∈ calls → 0 < c.count
  maximal : calls.IsChain fun c next => next.block ≠ c.block + c.count

/-- A pending run goes on with the number behind its last one, and with no other. -/
theorem extends_iff {nr block count : Nat} (word : nr < 2 ^ 32) (pending : block + count ≤ 2 ^ 32) :
    block = (nr + 2 ^ 64 - count) % 2 ^ 64 ↔ nr = block + count := by
  omega

/-- What the loop still does with a run of `count` blocks pending. -/
structure Flushes (entries : List Nat) (block count : Nat) (result : List Nat × List FreeCall) : Prop where
  zeros : result.1 = List.replicate entries.length 0
  covers : result.2.flatMap (fun c => List.range' c.block c.count) =
    List.range' block count ++ entries.filter (· ≠ 0)
  some : ∀ c, c ∈ result.2 → 0 < c.count
  maximal : result.2.IsChain fun c next => next.block ≠ c.block + c.count
  first : 0 < count → ∀ c, c ∈ result.2.head? → c.block = block

theorem freeDataArray_flushes {entries : List Nat} {p block count : Nat} (words : ∀ b, b ∈ entries → b < 2 ^ 32)
    (pending : block + count ≤ 2 ^ 32) : Flushes entries block count (freeDataArray p entries block count) := by
  induction entries generalizing p block count with
  | nil =>
    unfold freeDataArray
    split_ifs with some
    · exact ⟨rfl, by simp, by simpa using some, by simp, by simp⟩
    · obtain rfl : count = 0 := by omega
      exact ⟨rfl, by simp, by simp, by simp, by simp⟩
  | cons nr rest ih =>
    have word := words nr List.mem_cons_self
    have later : ∀ b, b ∈ rest → b < 2 ^ 32 := fun b member => words b (List.mem_cons_of_mem _ member)
    unfold freeDataArray
    split_ifs with nonzero start more
    · -- The first nonzero entry starts a run.
      subst start
      obtain ⟨zeros, covers, some, maximal, -⟩ := @ih (p + 1) nr 1 later (by omega)
      refine ⟨by simp [zeros, List.replicate_succ], ?_, some, maximal, by simp⟩
      simp only [covers, List.filter_cons, nonzero, ne_eq, not_false_eq_true, decide_true, if_true, List.range'_zero,
        List.nil_append]
      rfl
    · obtain rfl := (extends_iff word pending).mp more
      obtain ⟨zeros, covers, some, maximal, first⟩ := @ih (p + 1) block (count + 1) later (by omega)
      refine ⟨by simp [zeros, List.replicate_succ], ?_, some, maximal, fun _ => first (Nat.succ_pos _)⟩
      simp only [covers, List.filter_cons, nonzero, ne_eq, not_false_eq_true, decide_true, if_true, List.range'_1_concat,
        List.append_assoc, List.singleton_append]
    · -- Any other entry ends the run and starts the next one.
      have apart := mt (extends_iff word pending).mpr more
      obtain ⟨zeros, covers, some, maximal, first⟩ := @ih (p + 1) nr 1 later (by omega)
      refine ⟨by simp [zeros, List.replicate_succ], ?_, ?_, ?_, by simp⟩
      · simp only [List.flatMap_cons, covers, List.filter_cons, nonzero, ne_eq, not_false_eq_true, decide_true, if_true]
        rfl
      · rintro c (_ | ⟨_, member⟩)
        · exact Nat.pos_of_ne_zero start
        · exact some c member
      · rw [List.isChain_cons]
        refine ⟨fun next head => ?_, maximal⟩
        rw [first Nat.one_pos next head]
        exact apart
    · obtain rfl : nr = 0 := not_not.mp nonzero
      obtain ⟨zeros, covers, some, maximal, first⟩ := @ih (p + 1) block count later pending
      exact ⟨by simp [zeros, List.replicate_succ], by simp [covers], some, maximal, first⟩

theorem freeDataArray_coalesced {entries : List Nat} (p : Nat) (words : ∀ b, b ∈ entries → b < 2 ^ 32) :
    (freeDataArray p entries 0 0).1 = List.replicate entries.length 0 ∧
      Coalesced entries (freeDataArray p entries 0 0).2 := by
  obtain ⟨zeros, covers, some, maximal, -⟩ := @freeDataArray_flushes entries p 0 0 words (by omega)
  exact ⟨zeros, covers, some, maximal⟩

/-! ### The slots of an inode -/

variable {ι : Type} [DecidableEq ι] {sb : SuperBlock} {bh : Nat → BhRead} {i : ι} {s : BlockState ι}

/-- The slots from `p` up to `i_data[EXT2_NDIR_BLOCKS]`. -/
def slotList (inode : BlockInode) (p left : Nat) : List Nat := (List.range' p left).map inode.iData

def zeroSlots (inode : ι) (p left : Nat) (s : BlockState ι) : BlockState ι :=
  { s with
    inodes := Function.update s.inodes inode
      { s.inodes inode with iData := fun k => if p ≤ k ∧ k < p + left then 0 else (s.inodes inode).iData k } }

/-- The calls one after the other. -/
def freeCalls (sb : SuperBlock) (bh : Nat → BhRead) (inode : ι) (calls : List FreeCall) (s : BlockState ι) : BlockState ι :=
  calls.foldl (fun s c => ext2FreeBlocks sb (bh c.slot) inode c.block c.count s) s

theorem zeroSlots_none (p : Nat) : zeroSlots i p 0 s = s := by
  have none : (fun k => if p ≤ k ∧ k < p + 0 then 0 else (s.inodes i).iData k) = (s.inodes i).iData := by
    funext k
    exact if_neg (by omega)
  unfold zeroSlots
  rw [none, Function.update_eq_self]

theorem zeroSlots_setSlot (p left : Nat) : zeroSlots i (p + 1) left (setSlot i p 0 s) = zeroSlots i p (left + 1) s := by
  have slots : (fun k => if p + 1 ≤ k ∧ k < p + 1 + left then 0 else Function.update (s.inodes i).iData p 0 k) =
      fun k => if p ≤ k ∧ k < p + (left + 1) then 0 else (s.inodes i).iData k := by
    funext k
    by_cases first : k = p
    · subst first
      rw [if_neg (by omega), if_pos (by omega), Function.update_self]
    · rw [Function.update_of_ne first]
      split_ifs <;> first | rfl | omega
  simp only [zeroSlots, setSlot, Function.update_self, Function.update_idem, slots]

theorem zeroSlots_zero {p left : Nat} (zero : (s.inodes i).iData p = 0) :
    zeroSlots i (p + 1) left s = zeroSlots i p (left + 1) s := by
  have same : setSlot i p 0 s = s := by
    unfold setSlot
    rw [← zero, Function.update_eq_self, Function.update_eq_self]
  rw [← zeroSlots_setSlot, same]

/-- Freeing blocks neither reads nor changes the slots. -/
theorem freeBlocks_zeroSlots (how : BhRead) (block count p left : Nat) :
    ext2FreeBlocks sb how i block count (zeroSlots i p left s) =
      zeroSlots i p left (ext2FreeBlocks sb how i block count s) := by
  have same : ext2ReadBlockBitmap sb how (zeroSlots i p left s) = ext2ReadBlockBitmap sb how s := rfl
  unfold ext2FreeBlocks
  simp only [same]
  split_ifs with valid
  · cases ext2ReadBlockBitmap sb how s ((block - sb.firstDataBlock) / sb.blocksPerGroup) with
    | none => rfl
    | some bData =>
      cases ext2GetGroupDesc sb ((block - sb.firstDataBlock) / sb.blocksPerGroup) with
      | none => rfl
      | some desc =>
        simp only
        split_ifs <;>
          simp only [zeroSlots, groupUpdateFreeBlocks, Function.update_self, Function.update_idem] <;> split_ifs <;>
          simp only [Function.update_self, Function.update_idem]
  · rfl

omit [DecidableEq ι] in
theorem groupUpdateFreeBlocks_inodes (desc : Nat) (count : Int) : (groupUpdateFreeBlocks desc count s).inodes = s.inodes := by
  unfold groupUpdateFreeBlocks
  split_ifs <;> rfl

theorem freeBlocks_inodes (how : BhRead) (block count : Nat) :
    ∃ iBlocks, (ext2FreeBlocks sb how i block count s).inodes =
      Function.update s.inodes i { s.inodes i with iBlocks := iBlocks } := by
  have kept : ∃ iBlocks, s.inodes = Function.update s.inodes i { s.inodes i with iBlocks := iBlocks } :=
    ⟨(s.inodes i).iBlocks, (Function.update_eq_self i s.inodes).symm⟩
  unfold ext2FreeBlocks
  simp only
  split_ifs with valid
  · cases ext2ReadBlockBitmap sb how s ((block - sb.firstDataBlock) / sb.blocksPerGroup) with
    | none => exact kept
    | some bData =>
      cases ext2GetGroupDesc sb ((block - sb.firstDataBlock) / sb.blocksPerGroup) with
      | none => exact kept
      | some desc =>
        simp only
        split_ifs
        · simp only [groupUpdateFreeBlocks_inodes]
          exact ⟨_, rfl⟩
        · rw [groupUpdateFreeBlocks_inodes]
          exact kept
        · exact kept
  · exact kept

theorem freeBlocks_iData (how : BhRead) (block count : Nat) (j : ι) :
    ((ext2FreeBlocks sb how i block count s).inodes j).iData = (s.inodes j).iData := by
  obtain ⟨iBlocks, inodes⟩ := @freeBlocks_inodes ι _ sb i s how block count
  rw [inodes]
  by_cases same : j = i
  · subst same
    rw [Function.update_self]
  · rw [Function.update_of_ne same]

theorem freeCalls_iData (calls : List FreeCall) (j : ι) :
    ((freeCalls sb bh i calls s).inodes j).iData = (s.inodes j).iData := by
  induction calls generalizing s with
  | nil => rfl
  | cons c rest ih =>
    unfold freeCalls at ih ⊢
    rw [List.foldl_cons, ih, freeBlocks_iData]

theorem slotList_cons (inode : BlockInode) (p left : Nat) :
    slotList inode p (left + 1) = inode.iData p :: slotList inode (p + 1) left := by
  unfold slotList
  rw [List.range'_succ, List.map_cons]

theorem slotList_congr {inode inode' : BlockInode} {p left : Nat} (same : ∀ k, p ≤ k → inode'.iData k = inode.iData k) :
    slotList inode' p left = slotList inode p left := by
  apply List.map_congr_left
  intro k member
  exact same k (List.mem_range'_1.mp member).1

/-- The loop over the slots of an inode makes the calls of the loop over their array. -/
theorem freeDataLoop_calls {left p block count : Nat} (words : ∀ k, (s.inodes i).iData k < 2 ^ 32)
    (pending : block + count ≤ 2 ^ 32) (started : 0 < count → 0 < block) :
    freeDataLoop sb bh i left p block count s =
      freeCalls sb bh i (freeDataArray p (slotList (s.inodes i) p left) block count).2 (zeroSlots i p left s) := by
  induction left generalizing p block count s with
  | zero =>
    have empty : slotList (s.inodes i) p 0 = [] := rfl
    rw [empty, zeroSlots_none, freeDataLoop, freeDataArray]
    simp only
    split_ifs with some
    · rw [freeCalls, List.foldl_cons, List.foldl_nil]
    · rw [freeCalls, List.foldl_nil]
  | succ left ih =>
    have word := words p
    have zeroed : ((setSlot i p 0 s).inodes i).iData = Function.update (s.inodes i).iData p 0 := by
      simp only [setSlot, Function.update_self]
    have words' : ∀ k, ((setSlot i p 0 s).inodes i).iData k < 2 ^ 32 := by
      intro k
      rw [zeroed]
      by_cases same : k = p
      · subst same
        simp
      · rw [Function.update_of_ne same]
        exact words k
    have slots : slotList ((setSlot i p 0 s).inodes i) (p + 1) left = slotList (s.inodes i) (p + 1) left := by
      apply slotList_congr
      intro k behind
      rw [zeroed]
      exact Function.update_of_ne (by omega) ..
    rw [slotList_cons, freeDataLoop, freeDataArray]
    simp only
    by_cases nonzero : (s.inodes i).iData p ≠ 0
    · rw [if_pos nonzero, if_pos nonzero, ← zeroSlots_setSlot]
      by_cases start : count = 0
      · rw [if_pos start, if_pos start, ih words' (by omega) (by omega), slots]
      · rw [if_neg start, if_neg start]
        by_cases more : (s.inodes i).iData p = block + count
        · rw [if_pos (by omega), if_pos ((extends_iff word pending).mpr more), ih words' (by omega) (by omega), slots]
        · -- The pending run is freed before the rest of the slots is cleared.
          have some := started (Nat.pos_of_ne_zero start)
          have freed : slotList ((ext2FreeBlocks sb (bh p) i block count (setSlot i p 0 s)).inodes i) (p + 1) left =
              slotList (s.inodes i) (p + 1) left :=
            (slotList_congr fun k _ => by rw [freeBlocks_iData]).trans slots
          rw [if_neg (by omega), if_neg (mt (extends_iff word pending).mp more),
            ih (fun k => by rw [freeBlocks_iData]; exact words' k) (by omega) (by omega), freed, ← freeBlocks_zeroSlots]
          simp only [freeCalls, List.foldl_cons]
    · have zero := not_not.mp nonzero
      rw [if_neg nonzero, if_neg nonzero, ih words pending started, zeroSlots_zero zero]

theorem slotList_words {inode : BlockInode} (words : ∀ k, inode.iData k < 2 ^ 32) (p left : Nat) :
    ∀ b, b ∈ slotList inode p left → b < 2 ^ 32 := by
  intro b member
  obtain ⟨k, -, rfl⟩ := List.mem_map.mp member
  exact words k

/-- What `ext2_truncate_blocks` has to do from the slot `first` on. -/
structure Truncated (sb : SuperBlock) (bh : Nat → BhRead) (i : ι) (first : Nat) (s t : BlockState ι) : Prop where
  calls : ∃ calls, Coalesced (slotList (s.inodes i) first (ndirBlocks - first)) calls ∧
    t = freeCalls sb bh i calls (zeroSlots i first (ndirBlocks - first) s)
  zeroed : ∀ k, first ≤ k → k < ndirBlocks → (t.inodes i).iData k = 0
  kept : ∀ k, k < first → (t.inodes i).iData k = (s.inodes i).iData k

theorem freeData_truncated (words : ∀ k, (s.inodes i).iData k < 2 ^ 32) (p : Nat) :
    Truncated sb bh i p s (ext2FreeData sb bh i p s) := by
  have slots := freeDataArray_coalesced p (slotList_words words p (ndirBlocks - p))
  have done := @freeDataLoop_calls ι _ sb bh i s (ndirBlocks - p) p 0 0 words (by omega) (by omega)
  unfold ext2FreeData
  rw [done]
  refine ⟨⟨_, slots.2, rfl⟩, fun k low high => ?_, fun k low => ?_⟩
  · rw [freeCalls_iData]
    simp only [zeroSlots, Function.update_self]
    exact if_pos ⟨low, by omega⟩
  · rw [freeCalls_iData]
    simp only [zeroSlots, Function.update_self]
    exact if_neg (by omega)

/-- Both halves: the loop over any array, and the slots of a regular file behind its new end. The offset, rounded up to a
block, is a `loff_t`. -/
theorem free_data_runs :
    (∀ entries : List Nat, (∀ b, b ∈ entries → b < 2 ^ 32) →
      (freeDataArray 0 entries 0 0).1 = List.replicate entries.length 0 ∧
        Coalesced entries (freeDataArray 0 entries 0 0).2) ∧
      ∀ (v : Volume) (bh : Nat → BhRead) (i : ι) (s : BlockState ι) (offset : Nat),
        offset + blocksize v.toSuperBlock ≤ 2 ^ 63 → (s.inodes i).kind = .reg → (∀ k, (s.inodes i).iData k < 2 ^ 32) →
        Truncated v.toSuperBlock bh i ((offset + blocksize v.toSuperBlock - 1) / blocksize v.toSuperBlock) s
          (ext2TruncateBlocks v.toSuperBlock bh i offset s) := by
  refine ⟨fun entries words => freeDataArray_coalesced 0 words, fun v bh i s offset _ regular words => ?_⟩
  have slow : ext2InodeIsFastSymlink (s.inodes i) = false := by simp [ext2InodeIsFastSymlink, regular]
  unfold ext2TruncateBlocks
  rw [if_neg (by simp [regular]), slow, if_neg (by decide), Nat.shiftRight_eq_div_pow]
  exact freeData_truncated words _

/-- A file of the three blocks 6, 7 and 8. -/
def threeBlocks : BlockState Unit :=
  { nothingFree with inodes _ := ⟨.reg, 0, fun k => if k < 3 then 6 + k else 0, 6⟩ }

/-- A run over a zero slot, one that starts further down, and a block that comes again; and a file that is
cut to its first block. -/
theorem free_data_runs_seven :
    Coalesced [6, 7, 0, 8, 3, 4, 6] [⟨4, 6, 3⟩, ⟨6, 3, 2⟩, ⟨7, 6, 1⟩] ∧
      Truncated smallVolume.toSuperBlock (fun _ => .read) () 1 threeBlocks
        (ext2TruncateBlocks smallVolume.toSuperBlock (fun _ => .read) () 1000 threeBlocks) := by
  have words : ∀ k, (threeBlocks.inodes ()).iData k < 2 ^ 32 := by
    intro k
    simp only [threeBlocks]
    split_ifs <;> omega
  exact ⟨((@free_data_runs Unit _).1 _ (by decide)).2,
    (@free_data_runs Unit _).2 smallVolume (fun _ => .read) () threeBlocks 1000 (by decide) rfl words⟩

end OsLab.Ext2
