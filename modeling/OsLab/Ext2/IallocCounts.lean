import OsLab.Foundation.Ledger
import OsLab.Foundation.Runs
import OsLab.Ext2.Ialloc

/-!
# Inode numbers and counts under concurrency

Concurrent calls never give one number to two inodes, and each count differs from what it
counts by what the calls in progress have still to add or subtract.
-/

namespace OsLab.Ext2
open Bitmap Ledger Runs

/-! ### What a call in progress holds and owes -/

/-- The inode whose number a call has taken and not yet handed out, or not yet given back. -/
@[simp] def Pc.takes (v : InodeVolume) : Pc → Option LiveInode
  | .got isDir group ino => some ⟨inodeNumber v group ino, isDir⟩
  | .decFreeinodes isDir group ino => some ⟨inodeNumber v group ino, isDir⟩
  | .incDirs group ino => some ⟨inodeNumber v group ino, true⟩
  | .updateDesc isDir group ino => some ⟨inodeNumber v group ino, isDir⟩
  | .clearBit inode => some inode
  | _ => none

/-- By how much `bg_free_inodes_count` of `group` exceeds the number of clear bits on account of a call. -/
@[simp] def Pc.freeDesc (g : Nat) : Pc → Int
  | .got _ group _ => if group = g then 1 else 0
  | .decFreeinodes _ group _ => if group = g then 1 else 0
  | .incDirs group _ => if group = g then 1 else 0
  | .updateDesc _ group _ => if group = g then 1 else 0
  | .releaseDesc _ group => if group = g then -1 else 0
  | _ => 0

@[simp] def Pc.dirsDesc (g : Nat) : Pc → Int
  | .got true group _ => if group = g then -1 else 0
  | .decFreeinodes true group _ => if group = g then -1 else 0
  | .incDirs group _ => if group = g then -1 else 0
  | .updateDesc true group _ => if group = g then -1 else 0
  | .releaseDesc true group => if group = g then 1 else 0
  | _ => 0

@[simp] def Pc.freeCounter : Pc → Int
  | .got .. => 1
  | .decFreeinodes .. => 1
  | .releaseDesc .. => -1
  | .incFreeinodes _ => -1
  | _ => 0

@[simp] def Pc.dirsCounter : Pc → Int
  | .got true _ _ => -1
  | .decFreeinodes true _ _ => -1
  | .incDirs .. => -1
  | .releaseDesc true _ => 1
  | .incFreeinodes true => 1
  | .decDirs => 1
  | _ => 0

/-- The group and the bit a call works on exist. -/
def Pc.InRange (v : InodeVolume) : Pc → Prop
  | .repeatInThisGroup _ _ group _ => group < groupsCount v.toSuperBlock
  | .setBit _ _ group ino => group < groupsCount v.toSuperBlock ∧ ino < v.inodesPerGroup
  | .got _ group ino => group < groupsCount v.toSuperBlock ∧ ino < v.inodesPerGroup ∧ v.firstIno ≤ inodeNumber v group ino
  | .decFreeinodes _ group ino => group < groupsCount v.toSuperBlock ∧ ino < v.inodesPerGroup
  | .incDirs group ino => group < groupsCount v.toSuperBlock ∧ ino < v.inodesPerGroup
  | .updateDesc _ group ino => group < groupsCount v.toSuperBlock ∧ ino < v.inodesPerGroup
  | .releaseDesc _ group => group < groupsCount v.toSuperBlock
  | _ => True

variable {τ : Type} {v : InodeVolume}

/-- The bits of the allocated directories. -/
def dirBits (s : InodeState τ) (g : Nat) : Bits := fun k => s.inodeBitmap g k && s.isDir g k

/-! ### Numbers -/

theorem inodeNumber_range {g k : Nat} (inside : g < groupsCount v.toSuperBlock) (bound : k < v.inodesPerGroup) :
    1 ≤ inodeNumber v g k ∧ inodeNumber v g k ≤ v.inodesCount := by
  have rows : (g + 1) * v.inodesPerGroup ≤ groupsCount v.toSuperBlock * v.inodesPerGroup :=
    Nat.mul_le_mul_right _ inside
  rw [Nat.succ_mul] at rows
  rw [v.total]
  unfold inodeNumber
  omega

theorem inodeNumber_split {n : Nat} (low : 1 ≤ n) (high : n ≤ v.inodesCount) :
    (n - 1) / v.inodesPerGroup < groupsCount v.toSuperBlock ∧ (n - 1) % v.inodesPerGroup < v.inodesPerGroup ∧
      inodeNumber v ((n - 1) / v.inodesPerGroup) ((n - 1) % v.inodesPerGroup) = n := by
  have total := v.total
  refine ⟨(Nat.div_lt_iff_lt_mul v.inodes.1).mpr (by omega), Nat.mod_lt _ v.inodes.1, ?_⟩
  have split := Nat.div_add_mod (n - 1) v.inodesPerGroup
  rw [Nat.mul_comm] at split
  unfold inodeNumber
  omega

theorem inodeNumber_inj {g k g' k' : Nat} (bound : k < v.inodesPerGroup) (bound' : k' < v.inodesPerGroup)
    (same : inodeNumber v g k = inodeNumber v g' k') : g = g' ∧ k = k' := by
  have shape : ∀ g k, inodeNumber v g k - 1 = k + v.inodesPerGroup * g := fun g k => by
    unfold inodeNumber
    rw [Nat.mul_comm]
    omega
  have flat : k + v.inodesPerGroup * g = k' + v.inodesPerGroup * g' := by rw [← shape, ← shape, same]
  have quot := congrArg (· / v.inodesPerGroup) flat
  have rem := congrArg (· % v.inodesPerGroup) flat
  simp only [Nat.add_mul_div_left _ _ v.inodes.1, Nat.div_eq_of_lt bound, Nat.div_eq_of_lt bound', Nat.zero_add] at quot
  simp only [Nat.add_mul_mod_self_left, Nat.mod_eq_of_lt bound, Nat.mod_eq_of_lt bound'] at rem
  exact ⟨quot, rem⟩

/-! ### The invariant -/

/-- Who holds which number. -/
structure Owners (v : InodeVolume) (s : InodeState τ) : Prop where
  nodup : (s.live.map LiveInode.iNo).Nodup
  apart : ∀ t x, (s.pc t).takes v = some x → x.iNo ∉ s.live.map LiveInode.iNo
  once : ∀ t u x y, (s.pc t).takes v = some x → (s.pc u).takes v = some y → x.iNo = y.iNo → t = u
  bits : ∀ g, g < groupsCount v.toSuperBlock → ∀ k, k < v.inodesPerGroup →
    (inodeNumber v g k < v.firstIno ∨ inodeNumber v g k ∈ s.live.map LiveInode.iNo ∨
      ∃ t x, (s.pc t).takes v = some x ∧ x.iNo = inodeNumber v g k) → s.inodeBitmap g k = true
  liveKind : ∀ x, x ∈ s.live → (1 ≤ x.iNo ∧ x.iNo ≤ v.inodesCount) ∧
    s.isDir ((x.iNo - 1) / v.inodesPerGroup) ((x.iNo - 1) % v.inodesPerGroup) = x.isDir
  takenKind : ∀ t x, (s.pc t).takes v = some x → (1 ≤ x.iNo ∧ x.iNo ≤ v.inodesCount) ∧
    s.isDir ((x.iNo - 1) / v.inodesPerGroup) ((x.iNo - 1) % v.inodesPerGroup) = x.isDir

/-- The counts, up to what the calls in progress owe. -/
structure Counts [Fintype τ] (v : InodeVolume) (s : InodeState τ) : Prop where
  freeDesc : ∀ g, g < groupsCount v.toSuperBlock →
    Balanced (2 ^ 16) (Pc.freeDesc g) s.pc (s.bgFreeInodesCount g) (clearCount (s.inodeBitmap g) v.inodesPerGroup)
  dirsDesc : ∀ g, g < groupsCount v.toSuperBlock →
    Balanced (2 ^ 16) (Pc.dirsDesc g) s.pc (s.bgUsedDirsCount g) (setCount (dirBits s g) v.inodesPerGroup)
  small : ∀ g, g < groupsCount v.toSuperBlock → s.bgFreeInodesCount g < 2 ^ 16 ∧ s.bgUsedDirsCount g < 2 ^ 16
  freeCounter : Balanced 0 Pc.freeCounter s.pc s.sFreeinodesCounter
    (∑ g ∈ Finset.range (groupsCount v.toSuperBlock), (clearCount (s.inodeBitmap g) v.inodesPerGroup : Int))
  dirsCounter : Balanced 0 Pc.dirsCounter s.pc s.sDirsCounter
    (∑ g ∈ Finset.range (groupsCount v.toSuperBlock), (setCount (dirBits s g) v.inodesPerGroup : Int))

structure InodeInvariant [Fintype τ] (v : InodeVolume) (s : InodeState τ) : Prop where
  owners : Owners v s
  counts : Counts v s
  range : ∀ t, (s.pc t).InRange v

/-! ### Steps that take and give back nothing -/

variable {s : InodeState τ} {t : τ} {p : Pc}

theorem Owners.counters (owners : Owners v s) {free used : Nat → Nat} {freeC dirsC : Int} :
    Owners v
      { s with
        bgFreeInodesCount := free, bgUsedDirsCount := used
        sFreeinodesCounter := freeC, sDirsCounter := dirsC } :=
  ⟨owners.nodup, owners.apart, owners.once, owners.bits, owners.liveKind, owners.takenKind⟩

variable [DecidableEq τ]

theorem Owners.local (owners : Owners v s) (same : p.takes v = (s.pc t).takes v) : Owners v (goto t p s) := by
  have takes : ∀ u, ((goto t p s).pc u).takes v = (s.pc u).takes v := by
    intro u
    by_cases here : u = t
    · subst here
      simpa only [goto, Function.update_self] using same
    · simp only [goto, Function.update_of_ne here]
  constructor
  · exact owners.nodup
  · exact fun u x taken => owners.apart u x (takes u ▸ taken)
  · exact fun u w x y taken taken' => owners.once u w x y (takes u ▸ taken) (takes w ▸ taken')
  · intro g inside k bound
    simp only [takes]
    exact owners.bits g inside k bound
  · exact owners.liveKind
  · exact fun u x taken => owners.takenKind u x (takes u ▸ taken)

theorem range_goto (range : ∀ t, (s.pc t).InRange v) (next : p.InRange v) (u : τ) : ((goto t p s).pc u).InRange v := by
  by_cases here : u = t
  · subst here
    simpa only [goto, Function.update_self] using next
  · simpa only [goto, Function.update_of_ne here] using range u

variable [Fintype τ]

/-- A call that moves on without a change to the shared records. -/
theorem InodeInvariant.local (inv : InodeInvariant v s) (same : p.takes v = (s.pc t).takes v)
    (free : ∀ g, p.freeDesc g = (s.pc t).freeDesc g) (dirs : ∀ g, p.dirsDesc g = (s.pc t).dirsDesc g)
    (freeC : p.freeCounter = (s.pc t).freeCounter) (dirsC : p.dirsCounter = (s.pc t).dirsCounter)
    (next : p.InRange v) : InodeInvariant v (goto t p s) where
  owners := inv.owners.local same
  counts := {
    freeDesc := fun g inside => (inv.counts.freeDesc g inside).local (free g)
    dirsDesc := fun g inside => (inv.counts.dirsDesc g inside).local (dirs g)
    small := inv.counts.small
    freeCounter := inv.counts.freeCounter.local freeC
    dirsCounter := inv.counts.dirsCounter.local dirsC }
  range := range_goto inv.range next

end OsLab.Ext2
