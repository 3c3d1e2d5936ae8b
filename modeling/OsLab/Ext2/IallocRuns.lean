import OsLab.Ext2.IallocSteps

/-!
# Runs of inode calls

Any interleaving of calls keeps the invariant; what the calls in progress owe is zero once
all of them have returned.
-/

namespace OsLab.Ext2
open Bitmap Ledger Runs

variable {τ : Type} {v : InodeVolume} {s : InodeState τ}

/-! ### Exact counts -/

theorem inodesPerGroup_lt (v : InodeVolume) : v.inodesPerGroup < 2 ^ 16 := by
  have bits := v.inodes.2
  have size := blocksize_le (v := v.toVolume)
  omega

/-- Every count is that of what it counts. -/
structure ExactCounts (v : InodeVolume) (s : InodeState τ) : Prop where
  freeInodes : ∀ g, g < groupsCount v.toSuperBlock →
    s.bgFreeInodesCount g = clearCount (s.inodeBitmap g) v.inodesPerGroup
  usedDirs : ∀ g, g < groupsCount v.toSuperBlock → s.bgUsedDirsCount g = setCount (dirBits s g) v.inodesPerGroup
  freeCounter : s.sFreeinodesCounter = ∑ g ∈ Finset.range (groupsCount v.toSuperBlock), (s.bgFreeInodesCount g : Int)
  dirsCounter : s.sDirsCounter = ∑ g ∈ Finset.range (groupsCount v.toSuperBlock), (s.bgUsedDirsCount g : Int)

/-- No call is in progress, the bits of the reserved inodes and of the live ones are set, and the counts are exact. -/
structure Settled (v : InodeVolume) (s : InodeState τ) : Prop where
  idle : ∀ t, s.pc t = .idle
  nodup : (s.live.map LiveInode.iNo).Nodup
  bits : ∀ g, g < groupsCount v.toSuperBlock → ∀ k, k < v.inodesPerGroup →
    (inodeNumber v g k < v.firstIno ∨ inodeNumber v g k ∈ s.live.map LiveInode.iNo) → s.inodeBitmap g k = true
  kind : ∀ x, x ∈ s.live → (1 ≤ x.iNo ∧ x.iNo ≤ v.inodesCount) ∧
    s.isDir ((x.iNo - 1) / v.inodesPerGroup) ((x.iNo - 1) % v.inodesPerGroup) = x.isDir
  counts : ExactCounts v s

variable [Fintype τ]

theorem Settled.invariant (settled : Settled v s) : InodeInvariant v s := by
  have quiet : ∀ t, (s.pc t).Quiet v := fun t => settled.idle t ▸ Pc.quiet_idle
  have nothing : ∀ t x, (s.pc t).takes v ≠ some x := fun t x taken => by
    rw [(quiet t).takes] at taken
    cases taken
  have counts := settled.counts
  constructor
  · constructor
    · exact settled.nodup
    · exact fun t x taken => absurd taken (nothing t x)
    · exact fun t u x y taken => absurd taken (nothing t x)
    · rintro g inside k bound (low | live | ⟨t, x, taken, -⟩)
      · exact settled.bits g inside k bound (Or.inl low)
      · exact settled.bits g inside k bound (Or.inr live)
      · exact absurd taken (nothing t x)
    · exact settled.kind
    · exact fun t x taken => absurd taken (nothing t x)
  · constructor
    · exact fun g inside => Balanced.of_quiet (by rw [counts.freeInodes g inside]) fun t => (quiet t).freeDesc g
    · exact fun g inside => Balanced.of_quiet (by rw [counts.usedDirs g inside]) fun t => (quiet t).dirsDesc g
    · intro g inside
      have few := inodesPerGroup_lt v
      rw [counts.freeInodes g inside, counts.usedDirs g inside]
      exact ⟨(clearCount_le _ _).trans_lt few, (setCount_le _ _).trans_lt few⟩
    · refine Balanced.of_quiet (counts.freeCounter.trans (Finset.sum_congr rfl fun g member => ?_)) fun t => (quiet t).freeCounter
      rw [counts.freeInodes g (Finset.mem_range.mp member)]
    · refine Balanced.of_quiet (counts.dirsCounter.trans (Finset.sum_congr rfl fun g member => ?_)) fun t => (quiet t).dirsCounter
      rw [counts.usedDirs g (Finset.mem_range.mp member)]
  · intro t
    rw [settled.idle t]
    trivial

theorem InodeInvariant.settled (inv : InodeInvariant v s) (idle : ∀ t, s.pc t = .idle) : Settled v s := by
  have quiet : ∀ t, (s.pc t).Quiet v := fun t => idle t ▸ Pc.quiet_idle
  have few := inodesPerGroup_lt v
  have free : ∀ g, g < groupsCount v.toSuperBlock → s.bgFreeInodesCount g = clearCount (s.inodeBitmap g) v.inodesPerGroup :=
    fun g inside => counter_exact ((inv.counts.freeDesc g inside).quiet fun t => (quiet t).freeDesc g)
      (inv.counts.small g inside).1 ((clearCount_le _ _).trans_lt few)
  have dirs : ∀ g, g < groupsCount v.toSuperBlock → s.bgUsedDirsCount g = setCount (dirBits s g) v.inodesPerGroup :=
    fun g inside => counter_exact ((inv.counts.dirsDesc g inside).quiet fun t => (quiet t).dirsDesc g)
      (inv.counts.small g inside).2 ((setCount_le _ _).trans_lt few)
  constructor
  · exact idle
  · exact inv.owners.nodup
  · exact fun g inside k bound held =>
      inv.owners.bits g inside k bound (held.imp_right Or.inl)
  · exact inv.owners.liveKind
  · constructor
    · exact free
    · exact dirs
    · have total := inv.counts.freeCounter.quiet fun t => (quiet t).freeCounter
      rw [Int.modEq_zero_iff] at total
      exact total.trans (Finset.sum_congr rfl fun g member => by rw [free g (Finset.mem_range.mp member)])
    · have total := inv.counts.dirsCounter.quiet fun t => (quiet t).dirsCounter
      rw [Int.modEq_zero_iff] at total
      exact total.trans (Finset.sum_congr rfl fun g member => by rw [dirs g (Finset.mem_range.mp member)])

/-! ### Whole runs -/

variable [DecidableEq τ]

/-- Concurrent calls give every live inode a number of its own, and leave exact counts once all have returned. -/
theorem inode_runs {s' : InodeState τ} {es : List (InodeEvent τ)} (start : Settled v s)
    (run : Steps (InodeStep v) s es s') :
    (s'.live.map LiveInode.iNo).Nodup ∧
      (∀ t x, (s'.pc t).takes v = some x → x.iNo ∉ s'.live.map LiveInode.iNo) ∧
      (∀ t u x y, (s'.pc t).takes v = some x → (s'.pc u).takes v = some y → x.iNo = y.iNo → t = u) ∧
      ((∀ t, s'.pc t = .idle) → Settled v s') := by
  have inv := run.invariant (fun _ _ _ kept step => inodeStep_invariant kept step) start.invariant
  exact ⟨inv.owners.nodup, inv.owners.apart, inv.owners.once, inv.settled⟩

/-! ### Two calls that race for one bit -/

def smallInodes : InodeVolume where
  toVolume := smallVolume
  inodesPerGroup := 16
  firstIno := 11
  inodesCount := 16
  groups := by decide
  inodes := by decide
  total := by decide

/-- Only the reserved inodes are allocated; the second is the root directory. -/
def freshVolume : InodeState Bool :=
  ⟨fun _ k => k < 10, fun _ => 6, fun _ => 1, 6, 1, fun _ k => k = 1, fun _ => .idle, []⟩

theorem freshVolume_settled : Settled smallInodes freshVolume where
  idle _ := rfl
  nodup := List.nodup_nil
  bits g _ k _ held := by
    have one : groupsCount smallInodes.toSuperBlock = 1 := by decide
    have low : inodeNumber smallInodes g k < 11 := held.resolve_right (by simp [freshVolume])
    have shape : k + 1 ≤ inodeNumber smallInodes g k := by unfold inodeNumber; omega
    exact decide_eq_true (by omega)
  kind x member := absurd member (by simp [freshVolume])
  counts := by
    have one : groupsCount smallInodes.toSuperBlock = 1 := by decide
    constructor
    · intro g inside
      obtain rfl : g = 0 := by omega
      decide
    · intro g inside
      obtain rfl : g = 0 := by omega
      decide
    · decide
    · decide

def roomy : Looks := ⟨⟨6, 11⟩, fun _ => ⟨6, 11⟩, fun _ => ⟨6, 11⟩⟩

def bothCalled : InodeState Bool :=
  goto false (.nextGroup false 0 0) (goto true (.nextGroup true 0 0) freshVolume)

/-- Both find the same bit, one sets it, the other one goes on to the next. -/
def race : List Bool :=
  [true, true, false, false, true, false, false, false, true, true, false, false, false, true, true]

theorem advances_run {ι : Type} [DecidableEq ι] (s : InodeState ι) (ts : List ι) :
    Steps (InodeStep v) s (ts.map .advance) (ts.foldl (fun s t => advance v t s) s) := by
  induction ts generalizing s with
  | nil => exact .nil s
  | cons t ts ih => exact .cons (.advance s t) (ih _)

theorem inode_runs_race :
    (race.foldl (fun s t => advance smallInodes t s) bothCalled).live = [⟨11, true⟩, ⟨12, false⟩] ∧
      Settled smallInodes (race.foldl (fun s t => advance smallInodes t s) bothCalled) := by
  have mkdir := InodeStep.newInode (v := smallInodes) freshVolume true true 0 2 roomy rfl
  have create := InodeStep.newInode (v := smallInodes) (goto true (.nextGroup true 0 0) freshVolume) false false 0 2 roomy rfl
  obtain ⟨-, -, -, settled⟩ := inode_runs freshVolume_settled (.cons mkdir (.cons create (advances_run bothCalled race)))
  exact ⟨by decide, settled (by decide)⟩

end OsLab.Ext2
