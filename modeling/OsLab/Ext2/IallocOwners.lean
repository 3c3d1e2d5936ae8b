import OsLab.Ext2.IallocCounts

/-!
# Inode numbers change hands

The four steps at which a number changes hands: a bit is set, the new inode is handed out,
an inode is passed to `ext2_free_inode`, its bit is cleared.
-/

namespace OsLab.Ext2
open Bitmap

variable {τ : Type} {v : InodeVolume} {s : InodeState τ} {t : τ}

theorem bit_other {table : Nat → Bits} {g k g' k' : Nat} {b : Bool} (other : ¬ (g' = g ∧ k' = k)) :
    Function.update table g (Function.update (table g) k b) g' k' = table g' k' := by
  by_cases group : g' = g
  · subst group
    rw [Function.update_self, Function.update_of_ne fun same => other ⟨rfl, same⟩]
  · rw [Function.update_of_ne group]

theorem isDir_other {g k n : Nat} {isDir : Bool} (low : 1 ≤ n) (high : n ≤ v.inodesCount)
    (other : n ≠ inodeNumber v g k) :
    Function.update s.isDir g (Function.update (s.isDir g) k isDir) ((n - 1) / v.inodesPerGroup)
      ((n - 1) % v.inodesPerGroup) = s.isDir ((n - 1) / v.inodesPerGroup) ((n - 1) % v.inodesPerGroup) := by
  obtain ⟨-, -, number⟩ := inodeNumber_split low high
  refine bit_other fun same => other ?_
  rw [← number, same.1, same.2]

theorem isDir_here {g k : Nat} {isDir : Bool} (inside : g < groupsCount v.toSuperBlock) (bound : k < v.inodesPerGroup) :
    Function.update s.isDir g (Function.update (s.isDir g) k isDir) ((inodeNumber v g k - 1) / v.inodesPerGroup)
      ((inodeNumber v g k - 1) % v.inodesPerGroup) = isDir := by
  obtain ⟨low, high⟩ := inodeNumber_range inside bound
  obtain ⟨-, rem, number⟩ := inodeNumber_split low high
  obtain ⟨group, bit⟩ := inodeNumber_inj rem bound number
  rw [group, bit, Function.update_self, Function.update_self]

theorem Owners.free (owners : Owners v s) {g k : Nat} (inside : g < groupsCount v.toSuperBlock) (bound : k < v.inodesPerGroup)
    (clear : s.inodeBitmap g k = false) :
    v.firstIno ≤ inodeNumber v g k ∧ inodeNumber v g k ∉ s.live.map LiveInode.iNo ∧
      ∀ t x, (s.pc t).takes v = some x → x.iNo ≠ inodeNumber v g k := by
  have unset := mt (owners.bits g inside k bound) (by simp [clear])
  simp only [not_or, Nat.not_lt] at unset
  exact ⟨unset.1, unset.2.1, fun t x taken same => unset.2.2 ⟨t, x, taken, same⟩⟩

variable [DecidableEq τ]

theorem takes_goto (p : Pc) (u : τ) :
    ((goto t p s).pc u).takes v = if u = t then p.takes v else (s.pc u).takes v := by
  by_cases here : u = t
  · subst here
    simp [goto]
  · simp [goto, here]

theorem takes_dropped {p : Pc} (after : p.takes v = none) {u : τ} {x : LiveInode}
    (taken : ((goto t p s).pc u).takes v = some x) : u ≠ t ∧ (s.pc u).takes v = some x := by
  rw [takes_goto, after] at taken
  split_ifs at taken with here
  exact ⟨here, taken⟩

namespace Owners

theorem setBit (owners : Owners v s) {g k : Nat} {isDir : Bool} {p : Pc} (inside : g < groupsCount v.toSuperBlock)
    (bound : k < v.inodesPerGroup) (clear : s.inodeBitmap g k = false)
    (after : p.takes v = some ⟨inodeNumber v g k, isDir⟩) :
    Owners v
      (goto t p
        { s with
          inodeBitmap := Function.update s.inodeBitmap g (Function.update (s.inodeBitmap g) k true)
          isDir := Function.update s.isDir g (Function.update (s.isDir g) k isDir) }) := by
  obtain ⟨usable, notLive, notTaken⟩ := owners.free inside bound clear
  obtain ⟨low, high⟩ := inodeNumber_range inside bound
  constructor
  · exact owners.nodup
  · intro u x taken
    rw [takes_goto] at taken
    split_ifs at taken with here
    · obtain rfl := Option.some.inj (after.symm.trans taken)
      exact notLive
    · exact owners.apart u x taken
  · intro u w x y taken taken' same
    rw [takes_goto] at taken taken'
    split_ifs at taken taken' with here there
    · exact here.trans there.symm
    · obtain rfl := Option.some.inj (after.symm.trans taken)
      exact absurd same.symm (notTaken w y taken')
    · obtain rfl := Option.some.inj (after.symm.trans taken')
      exact absurd same (notTaken u x taken)
    · exact owners.once u w x y taken taken' same
  · intro g' inside' k' bound'
    simp only [takes_goto]
    by_cases here : g' = g ∧ k' = k
    · obtain ⟨rfl, rfl⟩ := here
      simp [goto]
    · intro held
      refine (bit_other here).trans (owners.bits g' inside' k' bound' ?_)
      rcases held with low | live | ⟨u, x, taken, number⟩
      · exact Or.inl low
      · exact Or.inr (Or.inl live)
      · split_ifs at taken with same
        · obtain rfl := Option.some.inj (after.symm.trans taken)
          exact absurd ((inodeNumber_inj bound bound' number).imp Eq.symm Eq.symm) here
        · exact Or.inr (Or.inr ⟨u, x, taken, number⟩)
  · intro x member
    obtain ⟨range, kind⟩ := owners.liveKind x member
    refine ⟨range, (isDir_other range.1 range.2 fun same => notLive ?_).trans kind⟩
    rw [← same]
    exact List.mem_map_of_mem member
  · intro u x taken
    rw [takes_goto] at taken
    split_ifs at taken with here
    · obtain rfl := Option.some.inj (after.symm.trans taken)
      exact ⟨⟨low, high⟩, isDir_here inside bound⟩
    · obtain ⟨range, kind⟩ := owners.takenKind u x taken
      exact ⟨range, (isDir_other range.1 range.2 (notTaken u x taken)).trans kind⟩

/-- The call hands its number to the owner of the new inode. -/
theorem handOut (owners : Owners v s) {x : LiveInode} {p : Pc} (before : (s.pc t).takes v = some x)
    (after : p.takes v = none) : Owners v (goto t p { s with live := x :: s.live }) := by
  constructor
  · exact List.nodup_cons.mpr ⟨owners.apart t x before, owners.nodup⟩
  · intro u y taken
    obtain ⟨other, held⟩ := takes_dropped after taken
    intro member
    rcases List.mem_cons.mp member with same | old
    · exact other (owners.once u t y x held before same)
    · exact owners.apart u y held old
  · intro u w y z taken taken' same
    exact owners.once u w y z (takes_dropped after taken).2 (takes_dropped after taken').2 same
  · intro g inside k bound
    simp only [goto, List.map_cons, List.mem_cons]
    rintro (low | (same | old) | ⟨u, y, taken, number⟩) <;> apply owners.bits g inside k bound
    · exact Or.inl low
    · exact Or.inr (Or.inr ⟨t, x, before, same.symm⟩)
    · exact Or.inr (Or.inl old)
    · exact Or.inr (Or.inr ⟨u, y, (takes_dropped after taken).2, number⟩)
  · intro y member
    rcases List.mem_cons.mp member with rfl | old
    · exact owners.takenKind t y before
    · exact owners.liveKind y old
  · intro u y taken
    exact owners.takenKind u y (takes_dropped after taken).2

/-- The owner of an inode passes it to a call. -/
theorem handIn (owners : Owners v s) {x : LiveInode} {p : Pc} (owned : x ∈ s.live)
    (after : p.takes v = some x) :
    Owners v (goto t p { s with live := s.live.erase x }) := by
  have perm := (List.perm_cons_erase owned).map LiveInode.iNo
  have nodup := perm.nodup_iff.mp owners.nodup
  rw [List.map_cons, List.nodup_cons] at nodup
  have member : ∀ n, n ∈ s.live.map LiveInode.iNo ↔ n = x.iNo ∨ n ∈ (s.live.erase x).map LiveInode.iNo := fun n => by
    rw [perm.mem_iff, List.map_cons, List.mem_cons]
  have others : ∀ u y, (s.pc u).takes v = some y → y.iNo ≠ x.iNo := fun u y taken same =>
    owners.apart u y taken ((member _).mpr (Or.inl same))
  constructor
  · exact nodup.2
  · intro u y taken
    rw [takes_goto] at taken
    split_ifs at taken with here
    · obtain rfl := Option.some.inj (after.symm.trans taken)
      exact nodup.1
    · exact fun left => owners.apart u y taken ((member _).mpr (Or.inr left))
  · intro u w y z taken taken' same
    rw [takes_goto] at taken taken'
    split_ifs at taken taken' with here there
    · exact here.trans there.symm
    · obtain rfl := Option.some.inj (after.symm.trans taken)
      exact absurd same.symm (others w z taken')
    · obtain rfl := Option.some.inj (after.symm.trans taken')
      exact absurd same (others u y taken)
    · exact owners.once u w y z taken taken' same
  · intro g inside k bound
    simp only [takes_goto]
    rintro (low | left | ⟨u, y, taken, number⟩) <;> apply owners.bits g inside k bound
    · exact Or.inl low
    · exact Or.inr (Or.inl ((member _).mpr (Or.inr left)))
    · split_ifs at taken with here
      · obtain rfl := Option.some.inj (after.symm.trans taken)
        exact Or.inr (Or.inl ((member _).mpr (Or.inl number.symm)))
      · exact Or.inr (Or.inr ⟨u, y, taken, number⟩)
  · exact fun y left => owners.liveKind y (List.mem_of_mem_erase left)
  · intro u y taken
    rw [takes_goto] at taken
    split_ifs at taken with here
    · obtain rfl := Option.some.inj (after.symm.trans taken)
      exact owners.liveKind _ owned
    · exact owners.takenKind u y taken

theorem drop (owners : Owners v s) {p : Pc} (after : p.takes v = none) : Owners v (goto t p s) := by
  constructor
  · exact owners.nodup
  · intro u y taken
    exact owners.apart u y (takes_dropped after taken).2
  · intro u w y z taken taken' same
    exact owners.once u w y z (takes_dropped after taken).2 (takes_dropped after taken').2 same
  · intro g inside k bound
    rintro (low | live | ⟨u, y, taken, number⟩) <;> apply owners.bits g inside k bound
    · exact Or.inl low
    · exact Or.inr (Or.inl live)
    · exact Or.inr (Or.inr ⟨u, y, (takes_dropped after taken).2, number⟩)
  · exact owners.liveKind
  · intro u y taken
    exact owners.takenKind u y (takes_dropped after taken).2

theorem clearBit (owners : Owners v s) {x : LiveInode} {g k : Nat} {p : Pc} (inside : g < groupsCount v.toSuperBlock)
    (bound : k < v.inodesPerGroup) (number : inodeNumber v g k = x.iNo) (before : (s.pc t).takes v = some x)
    (usable : v.firstIno ≤ x.iNo) (after : p.takes v = none) :
    Owners v
      (goto t p
        { s with inodeBitmap := Function.update s.inodeBitmap g (Function.update (s.inodeBitmap g) k false) }) := by
  constructor
  · exact owners.nodup
  · intro u y taken
    exact owners.apart u y (takes_dropped after taken).2
  · intro u w y z taken taken' same
    exact owners.once u w y z (takes_dropped after taken).2 (takes_dropped after taken').2 same
  · intro g' inside' k' bound'
    by_cases here : g' = g ∧ k' = k
    · obtain ⟨rfl, rfl⟩ := here
      rw [number]
      rintro (low | live | ⟨u, y, taken, same⟩)
      · exact absurd usable (Nat.not_le.mpr low)
      · exact absurd live (owners.apart t x before)
      · obtain ⟨other, held⟩ := takes_dropped after taken
        exact absurd (owners.once u t y x held before same) other
    · intro held
      refine (bit_other here).trans (owners.bits g' inside' k' bound' ?_)
      rcases held with low | live | ⟨u, y, taken, number⟩
      · exact Or.inl low
      · exact Or.inr (Or.inl live)
      · exact Or.inr (Or.inr ⟨u, y, (takes_dropped after taken).2, number⟩)
  · exact owners.liveKind
  · intro u y taken
    exact owners.takenKind u y (takes_dropped after taken).2

end Owners

end OsLab.Ext2
