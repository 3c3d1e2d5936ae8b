import OsLab.Ext2.Balloc

/-!
# First fit

`ext2_allocate_in_bg` with everything a caller sees of it, and when it takes the first run
of clear bits of its group.
-/

namespace OsLab.Ext2
open Bitmap

/-- What the call returns, the bitmap and `*count`. `num` is what the local of that name holds on entry;
the returned difference is an `unsigned long` cut to an `int`. -/
def allocateInBgCall (sb : SuperBlock) (group num : Nat) (bData : Bits) (count : Nat) : Int × Bits × Nat :=
  let firstFreeBit := findNextZero bData (nblocks sb group) (ext2GroupFirstBlockNo sb group)
  if nblocks sb group ≤ firstFreeBit then (-1, bData, count)
  else
    match allocateLoop count (nblocks sb group) (nblocks sb group - firstFreeBit) bData num firstFreeBit with
    | (bData, num, firstFreeBit) =>
      if num = 0 then (-1, bData, count) else (Int.bmod (firstFreeBit - num : Int) (2 ^ 32), bData, num)

/-! ### The loop without other callers -/

theorem allocateLoop_exact {count nblocks fuel num bit : Nat} {bData : Bits} (started : 0 < num ∨ bData bit = false)
    (enough : nblocks - bit ≤ fuel) :
    ∃ n, n = min (count - num) (clearLength bData bit nblocks) ∧
      allocateLoop count nblocks fuel bData num bit = (fill bData bit n true, num + n, bit + n) := by
  induction fuel generalizing num bit bData with
  | zero =>
    have none := @clearLength_set bData bit nblocks (Or.inl (by omega))
    exact ⟨0, by omega, by simp [allocateLoop]⟩
  | succ fuel ih =>
    unfold allocateLoop
    split_ifs with more set first
    · rcases started with some | clear
      · omega
      · rw [clear] at set
        cases set
    · have none := @clearLength_set bData bit nblocks (Or.inr set)
      exact ⟨0, by omega, by simp⟩
    · have here : bData bit = false := by simpa using set
      have length := clearLength_clear more.2 here
      obtain ⟨n, exact, result⟩ := @ih (num + 1) (bit + 1) (Function.update bData bit true) (Or.inl (by omega)) (by omega)
      rw [clearLength_congr fun k low => Function.update_of_ne (show k ≠ bit by omega) ..] at exact
      refine ⟨n + 1, by omega, ?_⟩
      rw [result, fill_update, Nat.add_assoc num 1 n, Nat.add_assoc bit 1 n, Nat.add_comm 1 n]
    · have beyond : count - num = 0 ∨ clearLength bData bit nblocks = 0 := by
        by_cases room : bit < nblocks
        · exact Or.inl (by omega)
        · exact Or.inr (clearLength_set (Or.inl (by omega)))
      exact ⟨0, by omega, by simp⟩

/-! ### The whole call -/

def takeRun (bData : Bits) (s count nblocks : Nat) : Int × Bits × Nat :=
  (s, fill bData s (min count (clearLength bData s nblocks)) true, min count (clearLength bData s nblocks))

variable {v : Volume} {g count : Nat} {bData : Bits}

theorem allocateInBgCall_none {num : Nat}
    (full : ∀ k, ext2GroupFirstBlockNo v.toSuperBlock g ≤ k → k < nblocks v.toSuperBlock g → bData k = true) :
    allocateInBgCall v.toSuperBlock g num bData count = (-1, bData, count) := by
  simp only [allocateInBgCall, findNextZero_full full, le_refl, if_true]

theorem allocateInBgCall_found {s : Nat} (group : g < groupsCount v.toSuperBlock) (wanted : 1 ≤ count)
    (inside : s < nblocks v.toSuperBlock g) (clear : bData s = false) (low : ext2GroupFirstBlockNo v.toSuperBlock g ≤ s)
    (before : ∀ k, ext2GroupFirstBlockNo v.toSuperBlock g ≤ k → k < s → bData k = true) :
    allocateInBgCall v.toSuperBlock g 0 bData count =
      takeRun bData s count (nblocks v.toSuperBlock g) := by
  have length := clearLength_clear inside clear
  have few := nblocks_le group
  have bits := v.perGroup.2
  have size := blocksize_le (v := v)
  obtain ⟨n, exact, result⟩ := @allocateLoop_exact count (nblocks v.toSuperBlock g) (nblocks v.toSuperBlock g - s) 0 s bData
    (Or.inr clear) le_rfl
  have some : n ≠ 0 := by omega
  have small : Int.bmod s (2 ^ 32) = s := Int.bmod_eq_of_le (by omega) (by omega)
  rw [Nat.sub_zero] at exact
  simp only [allocateInBgCall, takeRun, findNextZero_eq low inside before clear, result, Nat.zero_add, if_neg some,
    if_neg (Nat.not_le.mpr inside), ← exact]
  rw [Nat.cast_add, add_sub_cancel_right, small]

/-- The first clear bit of the group is taken, and the clear bits behind it up to `*count`. -/
structure FirstFit (v : Volume) (g count : Nat) (bData : Bits) : Prop where
  found : ∀ s, s < nblocks v.toSuperBlock g → bData s = false → (∀ k, k < s → bData k = true) →
    allocateInBgCall v.toSuperBlock g 0 bData count =
      takeRun bData s count (nblocks v.toSuperBlock g)
  full : (∀ k, k < nblocks v.toSuperBlock g → bData k = true) →
    allocateInBgCall v.toSuperBlock g 0 bData count = (-1, bData, count)

theorem first_clear {bits : Bits} {size k : Nat} (inside : k < size) (clear : bits k = false) :
    ∃ s, s ≤ k ∧ bits s = false ∧ ∀ j, j < s → bits j = true := by
  have found : findNextZero bits size 0 ≤ k := by
    by_contra late
    rw [findNextZero_before (Nat.zero_le k) (Nat.not_le.mp late)] at clear
    cases clear
  exact ⟨_, found, findNextZero_clear (by omega), fun j early => findNextZero_before (Nat.zero_le j) early⟩

theorem first_fit_iff (group : g < groupsCount v.toSuperBlock) (wanted : 1 ≤ count) :
    FirstFit v g count bData ↔
      ∀ k, k < nblocks v.toSuperBlock g → k < ext2GroupFirstBlockNo v.toSuperBlock g → bData k = true := by
  constructor
  · intro fit k inside skipped
    by_contra unset
    obtain ⟨s, low, clear, before⟩ := first_clear inside (Bool.eq_false_iff.mpr unset)
    have promised := fit.found s (by omega) clear before
    -- The search starts behind `s`, so what it returns is -1 or a later bit.
    rcases Nat.lt_or_eq_of_le (findNextZero_le bData (nblocks v.toSuperBlock g) (ext2GroupFirstBlockNo v.toSuperBlock g))
      with found | none
    · have behind : ext2GroupFirstBlockNo v.toSuperBlock g ≤ nblocks v.toSuperBlock g := by
        by_contra beyond
        unfold findNextZero at found
        rw [if_pos (by omega)] at found
        omega
      have later := findNextZero_ge bData behind
      rw [allocateInBgCall_found group wanted found (findNextZero_clear found) later
        fun k first last => findNextZero_before first last] at promised
      simp only [takeRun, Prod.mk.injEq, Nat.cast_inj] at promised
      omega
    · have nothing : allocateInBgCall v.toSuperBlock g 0 bData count = (-1, bData, count) := by
        simp only [allocateInBgCall, none, le_refl, if_true]
      rw [nothing] at promised
      have returned : (-1 : Int) = s := congrArg Prod.fst promised
      omega
  · intro skipped
    constructor
    · intro s inside clear before
      have low : ext2GroupFirstBlockNo v.toSuperBlock g ≤ s := by
        by_contra early
        rw [skipped s inside (Nat.not_le.mp early)] at clear
        cases clear
      exact allocateInBgCall_found group wanted inside clear low fun k _ last => before k last
    · exact fun full => allocateInBgCall_none fun k _ inside => full k inside

theorem allocateInBgCall_eq (group : g < groupsCount v.toSuperBlock) :
    allocateInBgCall v.toSuperBlock g 0 bData count =
      match ext2AllocateInBg v.toSuperBlock g bData count with
      | none => (-1, bData, count)
      | some (bData, s, n) => (s, bData, n) := by
  have few := nblocks_le group
  have bits := v.perGroup.2
  have size := blocksize_le (v := v)
  unfold allocateInBgCall ext2AllocateInBg
  generalize scan : findNextZero bData (nblocks v.toSuperBlock g) (ext2GroupFirstBlockNo v.toSuperBlock g) = first
  simp only
  by_cases full : nblocks v.toSuperBlock g ≤ first
  · rw [if_pos full, if_pos full]
  · have clear : bData first = false := scan ▸ findNextZero_clear (by omega)
    obtain ⟨n, -, result⟩ := @allocateLoop_exact count (nblocks v.toSuperBlock g) (nblocks v.toSuperBlock g - first) 0 first
      bData (Or.inr clear) le_rfl
    have small : Int.bmod first (2 ^ 32) = first := Int.bmod_eq_of_le (by omega) (by omega)
    simp only [if_neg full, result, Nat.zero_add, Nat.add_sub_cancel, Nat.cast_add, add_sub_cancel_right, small]
    by_cases none : n = 0
    · subst none
      simp only [if_true, fill_zero]
    · simp only [if_neg none]

/-! ### A group that is never searched -/

def twoGroups : Volume where
  blocksizeBits := 10
  blocksPerGroup := 16
  firstDataBlock := 1
  blocksCount := 33
  itbPerGroup := 1
  bgBlockBitmap g := 16 * g + 3
  bgInodeBitmap g := 16 * g + 4
  bgInodeTable g := 16 * g + 5
  sizes := kibi_sizes
  perGroup := by decide
  blocks := by decide
  blockBitmap := by decide
  inodeBitmap := by decide
  inodeTable := by decide

def metadataOnly : Bits := fun k => k < 5

/-- The second group starts at block 17, past the end of its own bitmap. -/
theorem second_group_unsearched :
    ¬ ∀ (v : Volume) (g : Nat), g < groupsCount v.toSuperBlock → ∀ (bData : Bits) (count : Nat), 1 ≤ count →
      FirstFit v g count bData := by
  intro fits
  have fit := fits twoGroups 1 (by decide) metadataOnly 4 (by decide)
  have promised := fit.found 5 (by decide) (by decide) (by decide)
  have returned := congrArg Prod.fst promised
  revert returned
  decide

theorem first_fit_superblock : FirstFit twoGroups 0 4 metadataOnly :=
  (first_fit_iff (by decide) (by decide)).mpr (by decide)

end OsLab.Ext2
