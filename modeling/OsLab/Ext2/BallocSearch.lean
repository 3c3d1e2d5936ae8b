import OsLab.Ext2.FirstFit

/-!
# What a search for blocks returns

`ext2_allocate_in_bg` for every value that its local `num` may hold on entry, and
`ext2_new_blocks` with any function in the place of `ext2_allocate_in_bg`.
-/

namespace OsLab.Ext2
open Bitmap

/-! ### One group -/

/-- The bits that a call returns were clear, lie inside the group and are set. -/
def Returned (sb : SuperBlock) (group count : Nat) (bData : Bits) (result : Int × Bits × Nat) : Prop :=
  0 ≤ result.1 → 1 ≤ result.2.2 ∧ result.2.2 ≤ count ∧ result.1 + result.2.2 ≤ nblocks sb group ∧
    ∀ k : Nat, result.1 ≤ k → k < result.1 + result.2.2 → bData k = false ∧ result.2.1 k = true

variable {v : Volume} {g num count : Nat} {bData : Bits}

/-- From `num` on the loop counts `n` more bits, and these are the ones that it sets. -/
theorem allocateInBgCall_loop {first : Nat}
    (scan : findNextZero bData (nblocks v.toSuperBlock g) (ext2GroupFirstBlockNo v.toSuperBlock g) = first)
    (inside : first < nblocks v.toSuperBlock g) :
    ∃ n, n = min (count - num) (clearLength bData first (nblocks v.toSuperBlock g)) ∧
      allocateInBgCall v.toSuperBlock g num bData count =
        if num + n = 0 then (-1, bData, count)
        else (Int.bmod ((first : Int) - num) (2 ^ 32), fill bData first n true, num + n) := by
  have clear : bData first = false := scan ▸ findNextZero_clear (by omega)
  obtain ⟨n, exact, result⟩ := @allocateLoop_exact count (nblocks v.toSuperBlock g) (nblocks v.toSuperBlock g - first) num
    first bData (Or.inr clear) le_rfl
  have start : ((first + n : Nat) : Int) - ((num + n : Nat) : Int) = (first : Int) - num := by omega
  refine ⟨n, exact, ?_⟩
  simp only [allocateInBgCall, scan, if_neg (Nat.not_le.mpr inside), result, start]
  split_ifs with none
  · have nothing : n = 0 := by omega
    rw [nothing, fill_zero]
  · rfl

theorem refused_returned (bits : Bits) (n : Nat) : Returned v.toSuperBlock g count bData (-1, bits, n) :=
  fun accepted => absurd accepted (Int.not_le.mpr (Int.negSucc_lt_zero 0))

theorem returned_zero (group : g < groupsCount v.toSuperBlock) :
    Returned v.toSuperBlock g count bData (allocateInBgCall v.toSuperBlock g 0 bData count) := by
  rw [allocateInBgCall_eq group]
  cases done : ext2AllocateInBg v.toSuperBlock g bData count with
  | none => exact refused_returned bData count
  | some result =>
    obtain ⟨bData', s, n⟩ := result
    obtain ⟨some, bound, fits, clear, rfl⟩ := allocateInBg_some done
    refine fun _ => ⟨some, bound, by simp only; omega, fun k low high => ?_⟩
    simp only at low high
    exact ⟨clear k (by omega) (by omega), fill_inside true (by omega) (by omega)⟩

theorem returned_nonzero {first : Nat} (started : num ≠ 0)
    (scan : findNextZero bData (nblocks v.toSuperBlock g) (ext2GroupFirstBlockNo v.toSuperBlock g) = first)
    (inside : first < nblocks v.toSuperBlock g) (accepted : 0 ≤ Int.bmod ((first : Int) - num) (2 ^ 32)) :
    ¬ Returned v.toSuperBlock g count bData (allocateInBgCall v.toSuperBlock g num bData count) := by
  obtain ⟨n, -, result⟩ := @allocateInBgCall_loop v g num count bData first scan inside
  rw [result, if_neg (by omega)]
  intro returned
  obtain ⟨-, -, -, run⟩ := returned accepted
  simp only at run
  generalize Int.bmod ((first : Int) - num) (2 ^ 32) = start at accepted run
  obtain ⟨start, rfl⟩ := Int.eq_ofNat_of_zero_le accepted
  -- The first and the last bit of the run have both been set, so they lie `num + n` bits apart within `n`.
  have turned : ∀ k, start ≤ k → k < start + (num + n) → first ≤ k ∧ k < first + n := by
    intro k low high
    obtain ⟨clear, set⟩ := run k (by omega) (by omega)
    by_contra outside
    rw [fill_outside true (by omega), clear] at set
    cases set
  have low := turned start le_rfl (by omega)
  have high := turned (start + (num + n) - 1) (by omega) (by omega)
  omega

theorem bmod_neg_iff {first : Nat} :
    Int.bmod ((first : Int) - num) (2 ^ 32) < 0 ↔
      1 ≤ ((num : Int) - first) % 2 ^ 32 ∧ ((num : Int) - first) % 2 ^ 32 ≤ 2 ^ 31 := by
  rw [Int.bmod_def]
  split_ifs <;> omega

theorem returned_iff (group : g < groupsCount v.toSuperBlock) (num count : Nat) (bData : Bits) :
    Returned v.toSuperBlock g count bData (allocateInBgCall v.toSuperBlock g num bData count) ↔
      num = 0 ∨ (∀ k, ext2GroupFirstBlockNo v.toSuperBlock g ≤ k → k < nblocks v.toSuperBlock g → bData k = true) ∨
        ∃ first, ext2GroupFirstBlockNo v.toSuperBlock g ≤ first ∧ first < nblocks v.toSuperBlock g ∧
          bData first = false ∧ (∀ k, ext2GroupFirstBlockNo v.toSuperBlock g ≤ k → k < first → bData k = true) ∧
          1 ≤ ((num : Int) - first) % 2 ^ 32 ∧ ((num : Int) - first) % 2 ^ 32 ≤ 2 ^ 31 := by
  have few := nblocks_le group
  have bits := v.perGroup.2
  have size := blocksize_le (v := v)
  constructor
  · intro returned
    by_contra other
    simp only [not_or, not_forall, not_exists, not_and] at other
    obtain ⟨started, ⟨k, low, inside, unset⟩, wraps⟩ := other
    -- A clear bit is found, and the call returns the difference of its number and `num`.
    have found : findNextZero bData (nblocks v.toSuperBlock g) (ext2GroupFirstBlockNo v.toSuperBlock g) ≤ k := by
      by_contra late
      exact unset (findNextZero_before low (Nat.not_le.mp late))
    have first := findNextZero_ge bData (show ext2GroupFirstBlockNo v.toSuperBlock g ≤ nblocks v.toSuperBlock g by omega)
    have wraps := wraps _ first (by omega) (findNextZero_clear (by omega)) fun k low high => findNextZero_before low high
    apply returned_nonzero started rfl (by omega) ?_ returned
    by_contra negative
    obtain ⟨low, high⟩ := bmod_neg_iff.mp (Int.not_le.mp negative)
    exact wraps low high
  · rintro (rfl | full | ⟨first, low, inside, clear, before, wraps⟩)
    · exact returned_zero group
    · rw [allocateInBgCall_none full]
      exact refused_returned bData count
    · obtain ⟨n, -, result⟩ := @allocateInBgCall_loop v g num count bData first (findNextZero_eq low inside before clear)
        inside
      have negative := bmod_neg_iff.mpr wraps
      rw [result]
      split_ifs
      · exact refused_returned bData count
      · exact fun accepted => absurd accepted (Int.not_le.mpr negative)

/-- With 1 in `num` the call returns the bit before the first clear one too. -/
theorem bit_before_returned :
    ¬ ∀ (v : Volume) (g : Nat), g < groupsCount v.toSuperBlock → ∀ (num count : Nat) (bData : Bits), num < 2 ^ 64 →
      Returned v.toSuperBlock g count bData (allocateInBgCall v.toSuperBlock g num bData count) := by
  intro all
  have run := (all twoGroups 0 (by decide) 1 4 metadataOnly (by decide) (by decide)).2.2.2 4 (by decide) (by decide)
  exact absurd run.1 (by decide)

theorem returned_iff_superblock :
    Returned twoGroups.toSuperBlock 0 4 metadataOnly (allocateInBgCall twoGroups.toSuperBlock 0 0 metadataOnly 4) :=
  (returned_iff (by decide) 0 4 metadataOnly).mpr (Or.inl rfl)

/-! ### All groups -/

variable {ι : Type}

def ext2CountFreeBlocks (sb : SuperBlock) (s : BlockState ι) : Nat :=
  (((List.range (groupsCount sb)).filterMap (ext2GetGroupDesc sb)).map s.bgFreeBlocksCount).sum

def HasFree (sb : SuperBlock) (s : BlockState ι) (g : Nat) : Prop :=
  ∃ k, k < nblocks sb g ∧ s.bitmap g k = false

/-- Exact counts, bitmaps that can be read, and an allocator that finds a free bit where there is one. -/
structure Searchable (v : Volume) (alloc : Nat → Bits → Nat → Option (Bits × Nat × Nat)) (bh : Nat → BhRead)
    (count : Nat) (s : BlockState ι) : Prop where
  counts : ∀ g, g < groupsCount v.toSuperBlock →
    s.bgFreeBlocksCount g = clearCount (s.bitmap g) (nblocks v.toSuperBlock g)
  reads : ∀ g, g < groupsCount v.toSuperBlock → ext2ReadBlockBitmap v.toSuperBlock (bh g) s g = some (s.bitmap g)
  finds : ∀ g, g < groupsCount v.toSuperBlock → HasFree v.toSuperBlock s g →
    ∃ bits bit n, alloc g (s.bitmap g) count = some (bits, bit, n) ∧ bit < nblocks v.toSuperBlock g ∧
      s.bitmap g bit = false

/-- The block is a free one of the first group with free blocks, in cyclic order from `start` on. -/
def FirstFree (sb : SuperBlock) (s : BlockState ι) (start block : Nat) : Prop :=
  ∃ d bit, d < groupsCount sb ∧ (∀ e, e < d → ¬ HasFree sb s ((start + e) % groupsCount sb)) ∧
    bit < nblocks sb ((start + d) % groupsCount sb) ∧ s.bitmap ((start + d) % groupsCount sb) bit = false ∧
    block = bit + ext2GroupFirstBlockNo sb ((start + d) % groupsCount sb)

/-- `-ENOSPC` says that no group has a free block, and any other result is a block of the first that has. -/
def SearchAnswer (sb : SuperBlock) (s : BlockState ι) (start : Nat) (result : Except Int (Nat × Nat)) : Prop :=
  (result = .error (-enospc) ∧ ∀ g, g < groupsCount sb → ¬ HasFree sb s g) ∨
    ∃ block n, result = .ok (block, n) ∧ FirstFree sb s start block

variable {alloc : Nat → Bits → Nat → Option (Bits × Nat × Nat)} {bh : Nat → BhRead} {s : BlockState ι}

namespace Searchable

theorem count_zero (ok : Searchable v alloc bh count s) (inside : g < groupsCount v.toSuperBlock) :
    s.bgFreeBlocksCount g = 0 ↔ ¬ HasFree v.toSuperBlock s g := by
  rw [ok.counts g inside]
  constructor
  · rintro none ⟨k, bound, clear⟩
    have some := clearCount_pos bound clear
    omega
  · intro none
    unfold clearCount
    rw [Finset.card_eq_zero, Finset.filter_eq_empty_iff]
    exact fun k bound clear => none ⟨k, Finset.mem_range.mp bound, clear⟩

theorem search_none (ok : Searchable v alloc bh count s) (left start : Nat) (inside : start < groupsCount v.toSuperBlock)
    (none : ∀ e, e < left → ¬ HasFree v.toSuperBlock s ((start + e) % groupsCount v.toSuperBlock)) :
    searchGroupsWith alloc v.toSuperBlock bh count s left start = (.error (-enospc), s) := by
  induction left generalizing start with
  | zero => rfl
  | succ left ih =>
    have here := none 0 (by omega)
    rw [Nat.add_zero, Nat.mod_eq_of_lt inside] at here
    unfold searchGroupsWith
    simp only [getGroupDesc_inside inside, (ok.count_zero inside).mpr here, if_true]
    apply ih _ (Nat.mod_lt _ groupsCount_pos)
    intro e bound
    rw [next_turn]
    exact none (e + 1) (by omega)

theorem search_found (ok : Searchable v alloc bh count s) (left start d : Nat)
    (inside : start < groupsCount v.toSuperBlock) (round : d < left)
    (free : HasFree v.toSuperBlock s ((start + d) % groupsCount v.toSuperBlock))
    (before : ∀ e, e < d → ¬ HasFree v.toSuperBlock s ((start + e) % groupsCount v.toSuperBlock)) :
    ∃ bit n, bit < nblocks v.toSuperBlock ((start + d) % groupsCount v.toSuperBlock) ∧
      s.bitmap ((start + d) % groupsCount v.toSuperBlock) bit = false ∧
      (searchGroupsWith alloc v.toSuperBlock bh count s left start).1 =
        .ok (bit + ext2GroupFirstBlockNo v.toSuperBlock ((start + d) % groupsCount v.toSuperBlock), n) := by
  induction left generalizing start d with
  | zero => omega
  | succ left ih =>
    unfold searchGroupsWith
    cases d with
    | zero =>
      rw [Nat.add_zero, Nat.mod_eq_of_lt inside] at free ⊢
      obtain ⟨bits, bit, n, found, bound, clear⟩ := ok.finds start inside free
      have some := mt (ok.count_zero inside).mp (not_not.mpr free)
      refine ⟨bit, n, bound, clear, ?_⟩
      simp only [getGroupDesc_inside inside, if_neg some, ok.reads start inside, found]
    | succ d =>
      have here := before 0 (by omega)
      rw [Nat.add_zero, Nat.mod_eq_of_lt inside] at here
      simp only [getGroupDesc_inside inside, (ok.count_zero inside).mpr here, if_true]
      rw [← next_turn] at free ⊢
      apply ih _ d (Nat.mod_lt _ groupsCount_pos) (by omega) free
      intro e bound
      rw [next_turn]
      exact before (e + 1) (by omega)

/-- A search of all groups answers rightly. -/
theorem search (ok : Searchable v alloc bh count s) {start : Nat} (inside : start < groupsCount v.toSuperBlock) :
    SearchAnswer v.toSuperBlock s start
      (searchGroupsWith alloc v.toSuperBlock bh count s (groupsCount v.toSuperBlock) start).1 := by
  by_cases free : ∃ d, d < groupsCount v.toSuperBlock ∧
      HasFree v.toSuperBlock s ((start + d) % groupsCount v.toSuperBlock)
  · classical
    have first := fun e early => Nat.find_min free (m := e) early
    obtain ⟨round, found⟩ := Nat.find_spec free
    have before : ∀ e, e < Nat.find free →
        ¬ HasFree v.toSuperBlock s ((start + e) % groupsCount v.toSuperBlock) :=
      fun e early here => first e early ⟨by omega, here⟩
    obtain ⟨bit, n, bound, clear, result⟩ := ok.search_found _ start _ inside round found before
    exact Or.inr ⟨_, n, result, _, bit, round, before, bound, clear, rfl⟩
  · have none : ∀ d, d < groupsCount v.toSuperBlock →
        ¬ HasFree v.toSuperBlock s ((start + d) % groupsCount v.toSuperBlock) :=
      fun d round here => free ⟨d, round, here⟩
    refine Or.inl ⟨by rw [ok.search_none _ start inside none], ?_⟩
    exact (forall_turns (P := fun g => ¬ HasFree v.toSuperBlock s g) inside).mp none

theorem total_zero (ok : Searchable v alloc bh count s) :
    ext2CountFreeBlocks v.toSuperBlock s = 0 ↔ ∀ g, g < groupsCount v.toSuperBlock → ¬ HasFree v.toSuperBlock s g := by
  simp only [ext2CountFreeBlocks, List.sum_eq_zero_iff_forall_eq_nat, List.mem_map, List.mem_filterMap, List.mem_range,
    forall_exists_index, and_imp]
  constructor
  · intro none g inside
    exact (ok.count_zero inside).mp (none _ g g inside (getGroupDesc_inside inside) rfl)
  · rintro none _ desc g inside found rfl
    obtain ⟨rfl, -⟩ := getGroupDesc_some found
    exact (ok.count_zero inside).mpr (none desc inside)

end Searchable

theorem search_answer_iff {i : ι} (ok : Searchable v alloc bh count s)
    (inside : (s.inodes i).iBlockGroup < groupsCount v.toSuperBlock) :
    SearchAnswer v.toSuperBlock s (s.inodes i).iBlockGroup
        (newBlocksWith alloc v.toSuperBlock (ext2CountFreeBlocks v.toSuperBlock s) bh i count s).1 ↔
      (ext2CountFreeBlocks v.toSuperBlock s % 2 ^ 16 = 0 → ext2CountFreeBlocks v.toSuperBlock s = 0) := by
  unfold newBlocksWith
  simp only
  split_ifs with none
  · constructor
    · rintro (⟨-, full⟩ | ⟨block, n, failed, -⟩)
      · exact fun _ => ok.total_zero.mpr full
      · cases failed
    · exact fun empty => Or.inl ⟨rfl, ok.total_zero.mp (empty none)⟩
  · exact ⟨fun _ zero => absurd zero none, fun _ => ok.search inside⟩

/-! ### A disk that is not full -/

/-- An allocator that searches every group from its first bit on. -/
def lowestFree (sb : SuperBlock) (group : Nat) (bData : Bits) (_count : Nat) : Option (Bits × Nat × Nat) :=
  let s := findNextZero bData (nblocks sb group) 0
  if nblocks sb group ≤ s then none else some (Function.update bData s true, s, 1)

theorem lowestFree_finds (free : HasFree v.toSuperBlock s g) :
    ∃ bits bit n, lowestFree v.toSuperBlock g (s.bitmap g) count = some (bits, bit, n) ∧
      bit < nblocks v.toSuperBlock g ∧ s.bitmap g bit = false := by
  obtain ⟨k, inside, clear⟩ := free
  have found : findNextZero (s.bitmap g) (nblocks v.toSuperBlock g) 0 < nblocks v.toSuperBlock g := by
    by_contra late
    have set := @findNextZero_before (s.bitmap g) (nblocks v.toSuperBlock g) 0 k (Nat.zero_le k) (by omega)
    rw [set] at clear
    cases clear
  exact ⟨_, _, 1, if_neg (Nat.not_le.mpr found), found, findNextZero_clear found⟩

/-- Three groups of 128 MiB. -/
def largeGroups : Volume where
  blocksizeBits := 12
  blocksPerGroup := 32768
  firstDataBlock := 0
  blocksCount := 98304
  itbPerGroup := 1
  bgBlockBitmap g := 32768 * g + 2
  bgInodeBitmap g := 32768 * g + 3
  bgInodeTable g := 32768 * g + 4
  sizes := by decide
  perGroup := by decide
  blocks := by decide
  blockBitmap := by decide
  inodeBitmap := by decide
  inodeTable := by decide

/-- Half of the first group and a quarter of each other one are in use. -/
def usedBlocks (g : Nat) : Nat := if g = 0 then 16384 else 8192

/-- 256 MiB are free. -/
def quarterGiBFree : BlockState Unit where
  bitmap g := fill (fun _ => true) (usedBlocks g) (32768 - usedBlocks g) false
  bgFreeBlocksCount g := 32768 - usedBlocks g
  sFreeblocksCounter := 65536
  inodes _ := ⟨.reg, 0, fun _ => 0, 0⟩

theorem quarterGiBFree_searchable :
    Searchable largeGroups (lowestFree largeGroups.toSuperBlock) (fun _ => .uptodate) 1 quarterGiBFree where
  counts := by
    intro g inside
    have size : ∀ g, g < 3 → nblocks largeGroups.toSuperBlock g = 32768 := by decide
    have used : usedBlocks g ≤ 32768 := by unfold usedBlocks; split_ifs <;> omega
    have none : clearCount (fun _ => true) 32768 = 0 := by simp [clearCount]
    have count := @clearCount_fill_false (fun _ => true) 32768 (usedBlocks g) (32768 - usedBlocks g) (by omega)
      fun _ _ _ => rfl
    rw [size g inside]
    simp only [quarterGiBFree, count, none, Nat.zero_add]
  reads := fun g inside => by simp only [ext2ReadBlockBitmap, getGroupDesc_inside inside]
  finds := fun g _ free => lowestFree_finds free

/-- 65536 free blocks are none in 16 bits. -/
theorem quarter_gib_unseen :
    ¬ ∀ (v : Volume) (alloc : Nat → Bits → Nat → Option (Bits × Nat × Nat)) (bh : Nat → BhRead) (count : Nat)
      (s : BlockState Unit) (i : Unit), Searchable v alloc bh count s →
      (s.inodes i).iBlockGroup < groupsCount v.toSuperBlock →
      SearchAnswer v.toSuperBlock s (s.inodes i).iBlockGroup
        (newBlocksWith alloc v.toSuperBlock (ext2CountFreeBlocks v.toSuperBlock s) bh i count s).1 := by
  intro all
  have answer := all largeGroups _ _ 1 quarterGiBFree () quarterGiBFree_searchable (by decide)
  have refused : (newBlocksWith (lowestFree largeGroups.toSuperBlock) largeGroups.toSuperBlock
      (ext2CountFreeBlocks largeGroups.toSuperBlock quarterGiBFree) (fun _ => .uptodate) () 1 quarterGiBFree).1 =
      .error (-enospc) := rfl
  rcases answer with ⟨-, full⟩ | ⟨block, n, found, -⟩
  · exact full 1 (by decide) ⟨8192, by decide, by decide⟩
  · rw [refused] at found
    cases found

/-- One group with 11 free blocks. -/
def elevenFree : BlockState Unit where
  bitmap _ := metadataOnly
  bgFreeBlocksCount _ := 11
  sFreeblocksCounter := 11
  inodes _ := ⟨.reg, 0, fun _ => 0, 0⟩

theorem search_answer_eleven :
    SearchAnswer smallVolume.toSuperBlock elevenFree 0
      (newBlocksWith (ext2AllocateInBg smallVolume.toSuperBlock) smallVolume.toSuperBlock
        (ext2CountFreeBlocks smallVolume.toSuperBlock elevenFree) (fun _ => .read) () 4 elevenFree).1 :=
  (search_answer_iff
    { counts := by decide
      reads := fun g inside => by
        obtain rfl : g = 0 := Nat.lt_one_iff.mp inside
        rfl
      finds := fun g inside _ => by
        obtain rfl : g = 0 := Nat.lt_one_iff.mp inside
        exact ⟨_, 5, 4, rfl, by decide, by decide⟩ }
    (by decide)).mpr (by decide)

end OsLab.Ext2
