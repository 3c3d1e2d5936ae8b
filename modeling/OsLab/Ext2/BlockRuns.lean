import OsLab.Foundation.Runs
import OsLab.Ext2.BlockFree

/-!
# Runs of block calls

Any sequence of `ext2_get_blocks` and `ext2_truncate_blocks` keeps the block state
consistent up to leaked blocks. A block leaks when the truncation that emptied its slot
could not read the bitmap of its group.
-/

namespace OsLab.Ext2
open Bitmap Runs

variable {ι : Type} [DecidableEq ι] {v : Volume} {leaked : ι → Finset Nat} {s t : BlockState ι} {i : ι}

/-! ### Truncation -/

/-- The loop frees all it takes out of the slots, and the run it starts with, when the bitmaps can be read. -/
theorem freeDataLoop_consistent {bh : Nat → BhRead} {left p b count : Nat} {base : Finset Nat}
    (ok : ConsistentUpTo v leaked s) (mapped : Mapped (s.inodes i)) (bound : p + left ≤ ndirBlocks)
    (pending : leaked i = base ∪ Finset.Ico b (b + count)) (apart : Disjoint base (Finset.Ico b (b + count))) :
    ∃ leaked', ConsistentUpTo v leaked' (freeDataLoop v.toSuperBlock bh i left p b count s) ∧
      (∀ j, j ≠ i → leaked' j = leaked j ∧
        (freeDataLoop v.toSuperBlock bh i left p b count s).inodes j = s.inodes j) ∧
      ((∀ p, (bh p).Succeeds) → leaked' i = base) := by
  have run : Finset.Ico b (b + count) ⊆ leaked i := pending ▸ Finset.subset_union_right
  induction left generalizing p b count base leaked s with
  | zero =>
    unfold freeDataLoop
    split_ifs with some
    · rcases ok.freeBlocks some run (bh p) with ⟨-, freed⟩ | ⟨fails, kept⟩
      · rw [freed]
        refine ⟨_, ok.free mapped some run, fun j other => ?_, fun _ => ?_⟩
        · simp [Function.update_of_ne other, freeRun]
        · rw [Function.update_self, pending, Finset.union_sdiff_cancel_right apart]
      · rw [kept]
        exact ⟨leaked, ok, fun j _ => ⟨rfl, rfl⟩, fun succeed => absurd (succeed p) fails⟩
    · obtain rfl : count = 0 := by omega
      exact ⟨leaked, ok, fun j _ => ⟨rfl, rfl⟩, fun _ => by rw [pending]; simp⟩
  | succ left ih =>
    unfold freeDataLoop
    by_cases hole : (s.inodes i).iData p = 0
    · simp only [hole, ne_eq, not_true_eq_false, if_false]
      exact ih ok mapped (by omega) pending apart run
    simp only [ne_eq, hole, not_false_eq_true, if_true]
    set nr := (s.inodes i).iData p with slot
    have held : Holds s.inodes i p nr := ⟨mapped, by omega, rfl, hole⟩
    have fresh : nr ∉ leaked i := fun leak => ok.leakedApart i nr leak i p held
    have emptied := ok.emptySlot held
    have mapped' : Mapped ((setSlot i p 0 s).inodes i) := by
      simpa only [setSlot, Function.update_self] using mapped.emptied (k := p)
    have others : ∀ j, j ≠ i → Function.update leaked i (insert nr (leaked i)) j = leaked j ∧
        (setSlot i p 0 s).inodes j = s.inodes j := fun j other => by
      simp [setSlot, Function.update_of_ne other]
    -- the new block starts a run of its own, on top of what is leaked already
    have restart : ∀ {kept : ι → Finset Nat} {u : BlockState ι} {base' : Finset Nat}, ConsistentUpTo v kept u →
        Mapped (u.inodes i) → kept i = insert nr base' → nr ∉ base' →
        (∀ j, j ≠ i → kept j = leaked j ∧ u.inodes j = s.inodes j) →
        ((∀ p, (bh p).Succeeds) → base' = base) →
        ∃ leaked', ConsistentUpTo v leaked' (freeDataLoop v.toSuperBlock bh i left (p + 1) nr 1 u) ∧
          (∀ j, j ≠ i → leaked' j = leaked j ∧
            (freeDataLoop v.toSuperBlock bh i left (p + 1) nr 1 u).inodes j = s.inodes j) ∧
          ((∀ p, (bh p).Succeeds) → leaked' i = base) := by
      intro kept u base' ok' mappedU holds notIn frame same
      have single : Finset.Ico nr (nr + 1) = {nr} := Nat.Ico_succ_singleton nr
      have pending' : kept i = base' ∪ Finset.Ico nr (nr + 1) := by
        rw [holds, single, Finset.union_comm, ← Finset.insert_eq]
      obtain ⟨leaked', final, rest, cleared⟩ := ih ok' mappedU (show p + 1 + left ≤ ndirBlocks by omega) pending'
        (by rw [single]; exact Finset.disjoint_singleton_right.mpr notIn)
        (pending' ▸ Finset.subset_union_right)
      exact ⟨leaked', final, fun j other => ⟨(rest j other).1.trans (frame j other).1,
        (rest j other).2.trans (frame j other).2⟩, fun succeed => (cleared succeed).trans (same succeed)⟩
    by_cases first : count = 0
    · subst first
      have all : leaked i = base := by rw [pending]; simp
      rw [if_pos rfl]
      exact restart emptied mapped' (by rw [Function.update_self, all]) (all ▸ fresh) others fun _ => rfl
    rw [if_neg first]
    have start := (ok.leakedData i b (run (Finset.mem_Ico.mpr ⟨le_rfl, by omega⟩))).gt_first
    by_cases contiguous : b = nr - count
    · have next : nr = b + count := by omega
      rw [if_pos contiguous]
      have longer : insert (b + count) (Finset.Ico b (b + count)) = Finset.Ico b (b + (count + 1)) := by
        ext c; simp; omega
      have pending' : Function.update leaked i (insert nr (leaked i)) i = base ∪ Finset.Ico b (b + (count + 1)) := by
        rw [Function.update_self, pending, next, ← Finset.union_insert, longer]
      have outside : b + count ∉ base := fun inBase => fresh (by rw [pending, next]; exact Finset.mem_union_left _ inBase)
      obtain ⟨leaked', final, rest, cleared⟩ := ih emptied mapped' (show p + 1 + left ≤ ndirBlocks by omega) pending'
        (by rw [← longer]; exact Finset.disjoint_insert_right.mpr ⟨outside, apart⟩)
        (pending' ▸ Finset.subset_union_right)
      exact ⟨leaked', final, fun j other => ⟨(rest j other).1.trans (others j other).1,
        (rest j other).2.trans (others j other).2⟩, cleared⟩
    · rw [if_neg contiguous]
      have run' : Finset.Ico b (b + count) ⊆ Function.update leaked i (insert nr (leaked i)) i := by
        rw [Function.update_self]
        exact run.trans (Finset.subset_insert _ _)
      rcases emptied.freeBlocks (by omega) run' (bh p) with ⟨-, freed⟩ | ⟨fails, kept⟩
      · rw [freed]
        have notRun : nr ∉ Finset.Ico b (b + count) := fun inRun => fresh (run inRun)
        refine @restart _ _ base (emptied.free mapped' (by omega) run') ?_ ?_ ?_ ?_ fun _ => rfl
        · simpa only [freeRun, Function.update_self] using emptied.freed_mapped mapped' run'
        · rw [Function.update_self, Function.update_self, pending, Finset.insert_sdiff_of_notMem _ notRun,
            Finset.union_sdiff_cancel_right apart]
        · exact fun inBase => fresh (pending ▸ Finset.mem_union_left _ inBase)
        · intro j other
          simp [freeRun, Function.update_of_ne other, others j other]
      · rw [kept]
        exact restart emptied mapped' (Function.update_self ..) fresh others
          fun succeed => absurd (succeed p) fails

theorem truncateBlocks_consistent (ok : ConsistentUpTo v leaked s) (bh : Nat → BhRead) (offset : Nat) :
    ∃ leaked', ConsistentUpTo v leaked' (ext2TruncateBlocks v.toSuperBlock bh i offset s) ∧
      (∀ j, j ≠ i → leaked' j = leaked j ∧
        (ext2TruncateBlocks v.toSuperBlock bh i offset s).inodes j = s.inodes j) ∧
      ((∀ p, (bh p).Succeeds) → leaked' i = leaked i) := by
  have same : ∃ leaked', ConsistentUpTo v leaked' s ∧ (∀ j, j ≠ i → leaked' j = leaked j ∧ s.inodes j = s.inodes j) ∧
      ((∀ p, (bh p).Succeeds) → leaked' i = leaked i) := ⟨leaked, ok, fun _ _ => ⟨rfl, rfl⟩, fun _ => rfl⟩
  unfold ext2TruncateBlocks
  simp only
  split_ifs with kinds fast
  · exact same
  · have mapped : Mapped (s.inodes i) := by
      rcases kinds with reg | dir | lnk
      · exact Or.inl reg
      · exact Or.inr (Or.inl dir)
      · refine Or.inr (Or.inr ⟨lnk, Or.inl fun zero => fast ?_⟩)
        simp [ext2InodeIsFastSymlink, lnk, zero]
    unfold ext2FreeData
    by_cases beyond : ndirBlocks ≤ (offset + blocksize v.toSuperBlock - 1) >>> v.blocksizeBits
    · rw [Nat.sub_eq_zero_of_le beyond]
      exact same
    · exact freeDataLoop_consistent ok mapped (by omega) (by simp) (by simp)
  · exact same

/-! ### Allocation -/

theorem getBlocks_consistent (ok : ConsistentUpTo v leaked s) (mapped : Mapped (s.inodes i)) (counterRead : Nat)
    (bh : Nat → BhRead) (iblock : Nat) (create : Bool) :
    ConsistentUpTo v leaked (ext2GetBlocks v.toSuperBlock counterRead bh i iblock create s).state ∧
      ∀ j, j ≠ i → (ext2GetBlocks v.toSuperBlock counterRead bh i iblock create s).state.inodes j = s.inodes j := by
  unfold ext2GetBlocks
  simp only
  split_ifs with beyond found absent
  · exact ⟨ok, fun _ _ => rfl⟩
  · exact ⟨ok, fun _ _ => rfl⟩
  · exact ⟨ok, fun _ _ => rfl⟩
  · obtain ⟨result, u, new⟩ : ∃ result u, ext2NewBlocks v.toSuperBlock counterRead bh i 1 s = (result, u) :=
      ⟨_, _, rfl⟩
    have hole : (s.inodes i).iData iblock = 0 := by omega
    rw [new]
    rw [newBlocks_search] at new
    cases result with
    | error e =>
      simp only at new ⊢
      split_ifs at new with full
      · obtain ⟨-, rfl⟩ := Prod.mk.inj new
        exact ⟨ok, fun _ _ => rfl⟩
      · obtain ⟨-, rfl⟩ := searchGroups_error new
        exact ⟨ok, fun _ _ => rfl⟩
    | ok found =>
      obtain ⟨resb, count⟩ := found
      simp only at new ⊢
      split_ifs at new with full
      · cases (Prod.mk.inj new).1
      · obtain ⟨g, bit, inside, some, one, fits, clear, rfl, rfl⟩ := searchGroups_ok new
        obtain rfl : count = 1 := by omega
        refine ⟨?_, fun j other => ?_⟩
        · have allocated := ok.allocate mapped (Nat.lt_of_not_le beyond) hole inside (by omega)
            (clear bit le_rfl (by omega))
          simpa only [setSlot, Function.update_self, Function.update_idem, fill_one, sectors, Nat.one_mul,
            Nat.add_comm bit, Nat.cast_one] using allocated
        · simp [setSlot, Function.update_of_ne other]

theorem getBlocks_failed {sb : SuperBlock} {counterRead : Nat} {bh : Nat → BhRead} {iblock : Nat} {create : Bool}
    (failed : (ext2GetBlocks sb counterRead bh i iblock create s).ret < 0) :
    (ext2GetBlocks sb counterRead bh i iblock create s).state = s := by
  unfold ext2GetBlocks at failed ⊢
  simp only at failed ⊢
  split_ifs at failed ⊢ with beyond found absent
  · rfl
  · rfl
  · rfl
  · obtain ⟨result, u, new⟩ : ∃ result u, ext2NewBlocks sb counterRead bh i 1 s = (result, u) := ⟨_, _, rfl⟩
    rw [new] at failed ⊢
    cases result with
    | error e =>
      rw [newBlocks_search] at new
      simp only at new ⊢
      split_ifs at new with full
      · exact (Prod.mk.inj new).2.symm
      · exact (searchGroups_error new).2
    | ok found =>
      simp only at failed
      omega

/-! ### Runs -/

/-- The calls, with how the bitmaps are read and what `percpu_counter_read_positive` returns. -/
inductive BlockCall (ι : Type) where
  | getBlocks (inode : ι) (iblock : Nat) (create : Bool) (counterRead : Nat) (bh : Nat → BhRead)
  | truncateBlocks (inode : ι) (offset : Nat) (bh : Nat → BhRead)

namespace BlockCall

def inode : BlockCall ι → ι
  | getBlocks inode .. => inode
  | truncateBlocks inode .. => inode

/-- The call does not empty a slot whose bitmap it cannot read. -/
def BitmapsRead : BlockCall ι → Prop
  | getBlocks .. => True
  | truncateBlocks _ _ bh => ∀ p, (bh p).Succeeds

/-- `ext2_truncate_blocks` returns nothing. -/
def Fails (sb : SuperBlock) (s : BlockState ι) : BlockCall ι → Prop
  | getBlocks inode iblock create counterRead bh => (ext2GetBlocks sb counterRead bh inode iblock create s).ret < 0
  | truncateBlocks .. => False

end BlockCall

/-- One call. The offset of a truncation, rounded up to a block, is a `loff_t`. -/
inductive CallStep (v : Volume) : BlockState ι → BlockCall ι → BlockState ι → Prop
  | getBlocks (s : BlockState ι) (inode : ι) (iblock : Nat) (create : Bool) (counterRead : Nat) (bh : Nat → BhRead)
      (mapped : Mapped (s.inodes inode)) :
      CallStep v s (.getBlocks inode iblock create counterRead bh)
        (ext2GetBlocks v.toSuperBlock counterRead bh inode iblock create s).state
  | truncateBlocks (s : BlockState ι) (inode : ι) (offset : Nat) (bh : Nat → BhRead)
      (fits : offset + blocksize v.toSuperBlock ≤ 2 ^ 63) :
      CallStep v s (.truncateBlocks inode offset bh) (ext2TruncateBlocks v.toSuperBlock bh inode offset s)

theorem callStep_consistent {call : BlockCall ι} (step : CallStep v s call t) (ok : ConsistentUpTo v leaked s) :
    ∃ leaked', ConsistentUpTo v leaked' t ∧
      ∀ i, (call.inode = i → call.BitmapsRead) → leaked' i = leaked i := by
  cases step with
  | getBlocks inode iblock create counterRead bh mapped =>
    exact ⟨leaked, (getBlocks_consistent ok mapped counterRead bh iblock create).1, fun _ _ => rfl⟩
  | truncateBlocks inode offset bh fits =>
    obtain ⟨leaked', ok', others, cleared⟩ := truncateBlocks_consistent (i := inode) ok bh offset
    refine ⟨leaked', ok', fun i read => ?_⟩
    by_cases same : i = inode
    · subst same
      exact cleared (read rfl)
    · exact (others i same).1

theorem run_consistent {calls : List (BlockCall ι)} (run : Steps (CallStep v) s calls t)
    (ok : ConsistentUpTo v leaked s) :
    ∃ leaked', ConsistentUpTo v leaked' t ∧
      ∀ i, (∀ call ∈ calls, call.inode = i → call.BitmapsRead) → leaked' i = leaked i := by
  induction run generalizing leaked with
  | nil => exact ⟨leaked, ok, fun _ _ => rfl⟩
  | cons step _ ih =>
    obtain ⟨leaked₁, ok₁, kept₁⟩ := callStep_consistent step ok
    obtain ⟨leaked₂, ok₂, kept₂⟩ := ih ok₁
    refine ⟨leaked₂, ok₂, fun i read => ?_⟩
    exact (kept₂ i fun call later => read call (List.mem_cons_of_mem _ later)).trans
      (kept₁ i (read _ List.mem_cons_self))

/-- After any run the state is consistent up to blocks leaked by truncations that could not read a
bitmap. The next call leaves the other inodes alone, and changes nothing when it fails. -/
theorem block_state_runs {calls : List (BlockCall ι)} (start : Consistent v s)
    (run : Steps (CallStep v) s calls t) :
    (∃ leaked, ConsistentUpTo v leaked t ∧
      ∀ i, (∀ call ∈ calls, call.inode = i → call.BitmapsRead) → leaked i = ∅) ∧
    ((∀ call ∈ calls, call.BitmapsRead) → Consistent v t) ∧
    ∀ call u, CallStep v t call u →
      (∀ j, j ≠ call.inode → u.inodes j = t.inodes j) ∧ (call.Fails v.toSuperBlock t → u = t) := by
  obtain ⟨leaked, ok, kept⟩ := run_consistent run start
  refine ⟨⟨leaked, ok, kept⟩, fun read => ?_, fun call u step => ?_⟩
  · have empty : leaked = fun _ => ∅ := funext fun i => kept i fun call member _ => read call member
    rw [empty] at ok
    exact ok
  · cases step with
    | getBlocks inode iblock create counterRead bh mapped =>
      exact ⟨(getBlocks_consistent ok mapped counterRead bh iblock create).2, getBlocks_failed⟩
    | truncateBlocks inode offset bh fits =>
      obtain ⟨_, _, others, _⟩ := truncateBlocks_consistent (i := inode) ok bh offset
      exact ⟨fun j other => (others j other).2, False.elim⟩

/-! ### A bitmap that cannot be read -/

/-- A regular file of one block, the sixth. -/
def oneBlock : BlockInode := ⟨.reg, 0, fun k => if k = 0 then 6 else 0, 2⟩

def oneFile : BlockState Unit := ⟨fun _ bit => bit < 6, fun _ => 10, 10, fun _ => oneBlock⟩

theorem oneFile_holds (u : Unit) (k b : Nat) : Holds oneFile.inodes u k b ↔ k = 0 ∧ b = 6 := by
  unfold Holds oneFile oneBlock ndirBlocks
  constructor
  · rintro ⟨-, -, here, some⟩
    by_cases first : k = 0
    · exact ⟨first, by simpa [first] using here.symm⟩
    · exact absurd (by simpa [first] using here.symm) some
  · rintro ⟨rfl, rfl⟩
    exact ⟨Or.inl rfl, by decide, rfl, by decide⟩

theorem oneFile_consistent : Consistent smallVolume oneFile where
  data u k b held := by
    obtain ⟨-, rfl⟩ := (oneFile_holds u k b).mp held
    exact ⟨by decide, by decide, by decide⟩
  once u k u' k' b held held' := by
    obtain ⟨rfl, -⟩ := (oneFile_holds u k b).mp held
    obtain ⟨rfl, -⟩ := (oneFile_holds u' k' b).mp held'
    exact ⟨rfl, rfl⟩
  leakedData _ _ leak := by simp at leak
  leakedApart _ _ leak := by simp at leak
  leakedOnce _ _ _ leak := by simp at leak
  bits g inside bit bound := by
    have group : g = 0 := by
      have one : groupsCount smallVolume.toSuperBlock = 1 := by decide
      omega
    subst group
    simp only [oneFile_holds, Finset.notMem_empty, exists_false, or_false, exists_eq_left, exists_const]
    revert bit
    decide
  counts g inside := by
    have group : g = 0 := by
      have one : groupsCount smallVolume.toSuperBlock = 1 := by decide
      omega
    subst group
    decide
  counter := by decide
  blocks u _ := by cases u; decide

/-- The truncation to 0 whose bitmap read fails. -/
def unreadable : BlockCall Unit := .truncateBlocks () 0 fun _ => .readError

theorem unreadable_step :
    CallStep smallVolume oneFile unreadable (ext2TruncateBlocks smallVolume.toSuperBlock (fun _ => .readError) () 0 oneFile) :=
  .truncateBlocks oneFile () 0 _ (by decide)

theorem block_state_runs_unreadable :
    ∃ leaked, ConsistentUpTo smallVolume leaked
      (ext2TruncateBlocks smallVolume.toSuperBlock (fun _ => .readError) () 0 oneFile) := by
  obtain ⟨⟨leaked, ok, -⟩, -⟩ := block_state_runs oneFile_consistent (.cons unreadable_step (.nil _))
  exact ⟨leaked, ok⟩

/-- The file has lost its block, whose bit stays set. -/
theorem unreadable_leaks :
    ¬ ∀ (v : Volume) (s t : BlockState Unit) (calls : List (BlockCall Unit)),
      Consistent v s → Steps (CallStep v) s calls t → Consistent v t := by
  intro kept
  have ok := kept _ _ _ _ oneFile_consistent (.cons unreadable_step (.nil _))
  have marked := (ok.bits 0 (by decide) 5 (by decide)).mp (by decide)
  rcases marked with zone | ⟨u, k, -, slot, here, -⟩ | ⟨u, leak⟩
  · revert zone
    decide
  · cases u
    revert k
    decide
  · simp at leak

end OsLab.Ext2
