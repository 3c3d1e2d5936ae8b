import OsLab.Ext2.NewInode

/-!
# Outcomes of an inode allocation

Which bit `ext2_new_inode` takes, when it finds none, and when a failure leaves the bit behind.
-/

namespace OsLab.Ext2
open Bitmap Traced OsLab.Ext2.Sequential

variable {g : InodeGeometry} {k : Kernel} {s : InodeRecords}

/-! ### The bit that is taken -/

def Full (g : InodeGeometry) (s : InodeRecords) (group : Nat) : Prop := ∀ bit < g.inodesPerGroup, s.inodeBitmap group bit = true

def BitmapRead (g : InodeGeometry) (k : Kernel) (group : Nat) : Prop := k.sbBread (g.sb.bgInodeBitmap group) = true

/-- The search from `start` passes the first `r` groups: their bitmaps are read and have no clear bit. -/
def Passes (g : InodeGeometry) (k : Kernel) (s : InodeRecords) (start r : Nat) : Prop :=
  ∀ j < r, BitmapRead g k ((start + j) % groupsCount g.sb) ∧ Full g s ((start + j) % groupsCount g.sb)

/-- The first clear bit of a group. -/
structure FirstClear (g : InodeGeometry) (s : InodeRecords) (group bit : Nat) : Prop where
  inside : bit < g.inodesPerGroup
  clear : s.inodeBitmap group bit = false
  before : ∀ j < bit, s.inodeBitmap group j = true

/-- The first clear bit of the first group that has one, when all bitmaps up to it are read. -/
def Reached (g : InodeGeometry) (k : Kernel) (s : InodeRecords) (start group bit : Nat) : Prop :=
  ∃ r < groupsCount g.sb, Passes g k s start r ∧ group = (start + r) % groupsCount g.sb ∧ BitmapRead g k group ∧
    FirstClear g s group bit

theorem FirstClear.unique {group bit bit' : Nat} (first : FirstClear g s group bit) (other : FirstClear g s group bit') :
    bit = bit' := by
  rcases Nat.lt_trichotomy bit bit' with less | same | more
  · have set := other.before bit less
    rw [first.clear] at set
    cases set
  · exact same
  · have set := first.before bit' more
    rw [other.clear] at set
    cases set

theorem FirstClear.not_full {group bit : Nat} (first : FirstClear g s group bit) : ¬ Full g s group := fun full => by
  have set := full bit first.inside
  rw [first.clear] at set
  cases set

theorem Reached.unique {start group bit group' bit' : Nat} (reached : Reached g k s start group bit)
    (other : Reached g k s start group' bit') : group = group' ∧ bit = bit' := by
  obtain ⟨r, -, passes, at_group, -, first⟩ := reached
  obtain ⟨r', -, passes', at_group', -, first'⟩ := other
  have same : r = r' := by
    rcases Nat.lt_trichotomy r r' with less | same | more
    · exact absurd (passes' r less).2 (at_group ▸ first.not_full)
    · exact same
    · exact absurd (passes r' more).2 (at_group' ▸ first'.not_full)
  subst same
  obtain rfl := at_group.trans at_group'.symm
  exact ⟨rfl, first.unique first'⟩

theorem repeatInThisGroup_cases (inodesPg : Nat) (bData : Bits) :
    (repeatInThisGroup inodesPg bData inodesPg 0 = none ∧ ∀ bit < inodesPg, bData bit = true) ∨
      ∃ bit < inodesPg, repeatInThisGroup inodesPg bData inodesPg 0 = some bit ∧ bData bit = false ∧
        ∀ j < bit, bData j = true := by
  cases inodesPg with
  | zero => exact Or.inl ⟨rfl, fun bit small => absurd small (Nat.not_lt_zero bit)⟩
  | succ n =>
    unfold repeatInThisGroup
    simp only
    have before : ∀ j, j < findNextZero bData (n + 1) 0 → bData j = true :=
      fun j small => findNextZero_before (Nat.zero_le j) small
    by_cases full : n + 1 ≤ findNextZero bData (n + 1) 0
    · rw [if_pos full]
      exact Or.inl ⟨rfl, fun bit small => before bit (by omega)⟩
    · have inside : findNextZero bData (n + 1) 0 < n + 1 := by omega
      have clear := findNextZero_clear inside
      rw [if_neg full, if_neg (by rw [clear]; simp)]
      exact Or.inr ⟨_, inside, rfl, clear, before⟩

theorem passes_succ {start r : Nat} (here : BitmapRead g k (start % groupsCount g.sb) ∧ Full g s (start % groupsCount g.sb))
    (rest : Passes g k s ((start + 1) % groupsCount g.sb) r) : Passes g k s start (r + 1) := by
  intro j small
  cases j with
  | zero => exact here
  | succ j =>
    have later := rest j (by omega)
    rwa [next_turn] at later

theorem readInodeBitmap_inside {group : Nat} (inside : group < groupsCount g.sb) :
    (readInodeBitmap g k s group).value =
      if k.sbBread (g.sb.bgInodeBitmap group) then some (g.sb.bgInodeBitmap group, s.inodeBitmap group) else none := by
  unfold readInodeBitmap
  rw [getGroupDesc_inside inside]
  simp only [value_ite, value_bind, value_pure]

/-- The search reaches a clear bit, or a bitmap that is not read, or passes all groups. -/
theorem searchBitmaps_cases {left start : Nat} (bitmapBh : Option Nat) (inside : start < groupsCount g.sb) :
    (∃ r < left, ∃ bit, Passes g k s start r ∧ BitmapRead g k ((start + r) % groupsCount g.sb) ∧
        FirstClear g s ((start + r) % groupsCount g.sb) bit ∧
        (searchBitmaps g k s left start bitmapBh).value = .ok ((start + r) % groupsCount g.sb, bit)) ∨
      (∃ r < left, Passes g k s start r ∧ ¬ BitmapRead g k ((start + r) % groupsCount g.sb) ∧
        (searchBitmaps g k s left start bitmapBh).value = .error (-eio)) ∨
      (Passes g k s start left ∧ (searchBitmaps g k s left start bitmapBh).value = .error (-enospc)) := by
  induction left generalizing start bitmapBh with
  | zero => exact Or.inr (Or.inr ⟨fun j small => absurd small (Nat.not_lt_zero j), rfl⟩)
  | succ left ih =>
    have next : (start + 1) % groupsCount g.sb < groupsCount g.sb := Nat.mod_lt _ (by omega)
    have here : start % groupsCount g.sb = start := Nat.mod_eq_of_lt inside
    have none : Passes g k s start 0 := fun j small => absurd small (Nat.not_lt_zero j)
    unfold searchBitmaps
    simp only [getGroupDesc_inside inside, value_bind, readInodeBitmap_inside inside]
    by_cases readable : BitmapRead g k start
    · rw [if_pos (show k.sbBread (g.sb.bgInodeBitmap start) = true from readable)]
      simp only
      rcases repeatInThisGroup_cases g.inodesPerGroup (s.inodeBitmap start) with ⟨full, set⟩ | ⟨bit, small, found, clear, set⟩
      · rw [full]
        have passed : BitmapRead g k (start % groupsCount g.sb) ∧ Full g s (start % groupsCount g.sb) := by
          rw [here]
          exact ⟨readable, set⟩
        rcases @ih ((start + 1) % groupsCount g.sb) (some (g.sb.bgInodeBitmap start)) next with
          ⟨r, small, bit, passes, read, first, value⟩ | ⟨r, small, passes, read, value⟩ | ⟨passes, value⟩
        · rw [next_turn] at read first value
          exact Or.inl ⟨r + 1, by omega, bit, passes_succ passed passes, read, first, value⟩
        · rw [next_turn] at read
          exact Or.inr (Or.inl ⟨r + 1, by omega, passes_succ passed passes, read, value⟩)
        · exact Or.inr (Or.inr ⟨passes_succ passed passes, value⟩)
      · have zero : (start + 0) % groupsCount g.sb = start := here
        rw [found]
        refine Or.inl ⟨0, by omega, bit, none, ?_, ?_, ?_⟩
        · rwa [zero]
        · rw [zero]
          exact ⟨small, clear, set⟩
        · rw [zero]
          rfl
    · rw [if_neg (show ¬ k.sbBread (g.sb.bgInodeBitmap start) = true from readable)]
      exact Or.inr (Or.inl ⟨0, by omega, none, by rwa [Nat.add_zero, here], rfl⟩)

/-! ### Outcomes -/

/-- How a call ends: without a bit, or behind a bit that it has set. -/
inductive Outcome (g : InodeGeometry) (k : Kernel) (isDir : Bool) (parentGroup parentIno : Nat) (s : InodeRecords) :
    Except Int Nat × InodeRecords → Prop
  | noMemory : k.newInode = false → Outcome g k isDir parentGroup parentIno s (.error (-enomem), s)
  | noGroup : k.newInode = true → (Sequential.findGroup g.sb s.desc parentGroup parentIno).value = none →
      Outcome g k isDir parentGroup parentIno s (.error (-enospc), s)
  | unread {start r : Nat} : k.newInode = true →
      (Sequential.findGroup g.sb s.desc parentGroup parentIno).value = some start → r < groupsCount g.sb →
      Passes g k s start r → ¬ BitmapRead g k ((start + r) % groupsCount g.sb) →
      Outcome g k isDir parentGroup parentIno s (.error (-eio), s)
  | exhausted {start : Nat} : k.newInode = true →
      (Sequential.findGroup g.sb s.desc parentGroup parentIno).value = some start →
      Passes g k s start (groupsCount g.sb) → Outcome g k isDir parentGroup parentIno s (.error (-enospc), s)
  | badNumber {start group bit : Nat} : k.newInode = true →
      (Sequential.findGroup g.sb s.desc parentGroup parentIno).value = some start → Reached g k s start group bit →
      (numberOf g group bit < g.firstIno ∨ g.inodesCount < numberOf g group bit) →
      Outcome g k isDir parentGroup parentIno s (.error (-eio), setBit group bit s)
  | inUse {start group bit : Nat} : k.newInode = true →
      (Sequential.findGroup g.sb s.desc parentGroup parentIno).value = some start → Reached g k s start group bit →
      g.firstIno ≤ numberOf g group bit → numberOf g group bit ≤ g.inodesCount →
      k.insertInodeLocked (numberOf g group bit) = false →
      Outcome g k isDir parentGroup parentIno s (.error (-eio), countInode group isDir (setBit group bit s))
  | done {start group bit : Nat} : k.newInode = true →
      (Sequential.findGroup g.sb s.desc parentGroup parentIno).value = some start → Reached g k s start group bit →
      g.firstIno ≤ numberOf g group bit → numberOf g group bit ≤ g.inodesCount →
      k.insertInodeLocked (numberOf g group bit) = true →
      Outcome g k isDir parentGroup parentIno s (.ok (numberOf g group bit), countInode group isDir (setBit group bit s))

theorem newInode_outcome (g : InodeGeometry) (k : Kernel) (isDir : Bool) (parentGroup parentIno : Nat) (s : InodeRecords) :
    Outcome g k isDir parentGroup parentIno s (ext2NewInode g k isDir parentGroup parentIno s).value := by
  unfold ext2NewInode
  by_cases memory : k.newInode = true
  swap
  · rw [if_neg memory]
    exact .noMemory (Bool.eq_false_iff.mpr memory)
  rw [if_pos memory]
  cases found : (Sequential.findGroup g.sb s.desc parentGroup parentIno).value with
  | none => exact .noGroup memory found
  | some start =>
    simp only [value_bind]
    have inside : start < groupsCount g.sb := (findGroup_found parentGroup parentIno start found).1
    rcases @searchBitmaps_cases g k s (groupsCount g.sb) start none inside with
      ⟨r, small, bit, passes, readable, first, value⟩ | ⟨r, small, passes, readable, value⟩ | ⟨passes, value⟩
    · have reached : Reached g k s start ((start + r) % groupsCount g.sb) bit := ⟨r, small, passes, rfl, readable, first⟩
      rw [value]
      simp only
      by_cases bad : numberOf g ((start + r) % groupsCount g.sb) bit < g.firstIno ∨
          g.inodesCount < numberOf g ((start + r) % groupsCount g.sb) bit
      · rw [if_pos bad]
        exact .badNumber memory found reached bad
      rw [if_neg bad]
      rw [not_or, Nat.not_lt, Nat.not_lt] at bad
      by_cases inserted : k.insertInodeLocked (numberOf g ((start + r) % groupsCount g.sb) bit) = true
      · rw [if_pos inserted]
        exact .done memory found reached bad.1 bad.2 inserted
      · rw [if_neg inserted]
        exact .inUse memory found reached bad.1 bad.2 (Bool.eq_false_iff.mpr inserted)
    · rw [value]
      exact .unread memory found small passes readable
    · rw [value]
      exact .exhausted memory found passes

/-! ### Failures that leave nothing behind -/

/-- A bit that is reached gets a number that passes the checks and is not in the cache. -/
def Accepts (g : InodeGeometry) (k : Kernel) (group bit : Nat) : Prop :=
  g.firstIno ≤ numberOf g group bit ∧ numberOf g group bit ≤ g.inodesCount ∧
    k.insertInodeLocked (numberOf g group bit) = true

theorem setBit_changes {group bit : Nat} (clear : s.inodeBitmap group bit = false) {t : InodeRecords}
    (bitmap : t.inodeBitmap = (setBit group bit s).inodeBitmap) : t ≠ s := by
  rintro rfl
  have set := congrFun (congrFun bitmap group) bit
  simp [setBit, clear] at set

/-- A failing call leaves all records as they were if and only if the clear bit that it reaches, if any, has a
number that is neither reserved nor too large nor in use. -/
theorem newInode_undone_iff (g : InodeGeometry) (k : Kernel) (isDir : Bool) (parentGroup parentIno : Nat) (s : InodeRecords) :
    (∀ e, (ext2NewInode g k isDir parentGroup parentIno s).value.1 = .error e →
        (ext2NewInode g k isDir parentGroup parentIno s).value.2 = s) ↔
      ∀ start group bit, k.newInode = true → (Sequential.findGroup g.sb s.desc parentGroup parentIno).value = some start →
        Reached g k s start group bit → Accepts g k group bit := by
  have outcome := newInode_outcome g k isDir parentGroup parentIno s
  generalize (ext2NewInode g k isDir parentGroup parentIno s).value = result at outcome
  -- the bit that is reached is the only one
  have only : ∀ {start start' group group' bit bit'},
      (Sequential.findGroup g.sb s.desc parentGroup parentIno).value = some start →
      (Sequential.findGroup g.sb s.desc parentGroup parentIno).value = some start' →
      Reached g k s start group bit → Reached g k s start' group' bit' → group' = group ∧ bit' = bit := by
    intro start start' group group' bit bit' found found' reached reached'
    obtain rfl := Option.some.inj (found.symm.trans found')
    exact reached'.unique reached
  cases outcome with
  | noMemory none =>
    refine iff_of_true (fun _ _ => rfl) fun start group bit memory => ?_
    rw [none] at memory
    cases memory
  | noGroup _ none =>
    refine iff_of_true (fun _ _ => rfl) fun start group bit _ found => ?_
    rw [none] at found
    cases found
  | @unread start r _ found few passes unread =>
    refine iff_of_true (fun _ _ => rfl) fun start' group bit _ found' reached => ?_
    obtain rfl := Option.some.inj (found.symm.trans found')
    obtain ⟨r', few', passes', rfl, readable, first⟩ := reached
    rcases Nat.lt_trichotomy r r' with less | rfl | more
    · exact absurd (passes' r less).1 unread
    · exact absurd readable unread
    · exact absurd (passes r' more).2 first.not_full
  | @exhausted start _ found passes =>
    refine iff_of_true (fun _ _ => rfl) fun start' group bit _ found' reached => ?_
    obtain rfl := Option.some.inj (found.symm.trans found')
    obtain ⟨r, few, -, rfl, -, first⟩ := reached
    exact absurd (passes r few).2 first.not_full
  | @badNumber start group bit memory found reached bad =>
    obtain ⟨-, -, -, -, -, first⟩ := id reached
    refine iff_of_false (fun undone => setBit_changes first.clear rfl (undone _ rfl)) fun accepts => ?_
    have fine := accepts start group bit memory found reached
    exact bad.elim (Nat.not_lt.mpr fine.1) (Nat.not_lt.mpr fine.2.1)
  | @inUse start group bit memory found reached low high taken =>
    obtain ⟨-, -, -, -, -, first⟩ := id reached
    have changed : countInode group isDir (setBit group bit s) ≠ s := setBit_changes first.clear rfl
    refine iff_of_false (fun undone => changed (undone _ rfl)) fun accepts => ?_
    have fine := (accepts start group bit memory found reached).2.2
    rw [taken] at fine
    cases fine
  | @done start group bit memory found reached low high inserted =>
    refine iff_of_true (fun e failed => by cases failed) fun start' group' bit' _ found' reached' => ?_
    obtain ⟨rfl, rfl⟩ := only found found' reached reached'
    exact ⟨low, high, inserted⟩

/-- One group of 16 inodes, the first ten of them reserved. -/
def smallGeometry : InodeGeometry where
  sb := ⟨10, 8192, 1, 8193, 2, fun _ => 3, fun _ => 4, fun _ => 5⟩
  inodesPerGroup := 16
  firstIno := 11
  inodesCount := 16

def willing : Kernel := ⟨true, fun _ => true, fun _ => true⟩

/-- A bitmap in which the reserved bits are clear. -/
def unreserved : InodeRecords := ⟨fun _ _ => false, fun _ => 16, fun _ => 8, fun _ => 0, 16, 0⟩

/-- The call takes the bit of inode 1, fails and leaves the bit set. -/
theorem newInode_leaves_bit :
    ¬ ∀ (g : InodeGeometry) (k : Kernel) (isDir : Bool) (parentGroup parentIno : Nat) (s : InodeRecords) (e : Int),
      (ext2NewInode g k isDir parentGroup parentIno s).value.1 = .error e →
        (ext2NewInode g k isDir parentGroup parentIno s).value.2 = s := by
  intro undone
  have same := undone smallGeometry willing false 0 2 unreserved (-eio) rfl
  have bit := congrArg (fun s => s.inodeBitmap 0 0) same
  revert bit
  decide

/-! ### Exact counts -/

/-- The counts are those of the clear bits, the reserved bits are set, and the inodes fill the groups. -/
structure ExactInodes (g : InodeGeometry) (s : InodeRecords) : Prop where
  counts : ∀ group < groupsCount g.sb, s.bgFreeInodesCount group = clearCount (s.inodeBitmap group) g.inodesPerGroup
  reserved : ∀ group < groupsCount g.sb, ∀ bit < g.inodesPerGroup, numberOf g group bit < g.firstIno →
    s.inodeBitmap group bit = true
  total : g.inodesCount = groupsCount g.sb * g.inodesPerGroup

structure Kernel.Succeeds (k : Kernel) : Prop where
  newInode : k.newInode = true
  sbBread : ∀ block, k.sbBread block = true
  insertInodeLocked : ∀ ino, k.insertInodeLocked ino = true

/-- The bit of an inode number, and no other one, becomes set. -/
structure SetsBit (g : InodeGeometry) (s t : InodeRecords) (ino : Nat) : Prop where
  number : 0 < ino ∧ ino ≤ g.inodesCount
  clear : s.inodeBitmap ((ino - 1) / g.inodesPerGroup) ((ino - 1) % g.inodesPerGroup) = false
  set : t.inodeBitmap = Function.update s.inodeBitmap ((ino - 1) / g.inodesPerGroup)
    (Function.update (s.inodeBitmap ((ino - 1) / g.inodesPerGroup)) ((ino - 1) % g.inodesPerGroup) true)

theorem full_iff (group : Nat) : clearCount (s.inodeBitmap group) g.inodesPerGroup = 0 ↔ Full g s group := by
  constructor
  · intro none bit inside
    by_contra clear
    have some := clearCount_pos inside (Bool.eq_false_iff.mpr clear)
    omega
  · intro full
    by_contra some
    obtain ⟨bit, member⟩ := Finset.card_pos.mp (Nat.pos_of_ne_zero some)
    rw [Finset.mem_filter, Finset.mem_range] at member
    rw [full bit member.1] at member
    cases member.2

theorem FirstClear.number {group bit : Nat} (first : FirstClear g s group bit) :
    (numberOf g group bit - 1) / g.inodesPerGroup = group ∧ (numberOf g group bit - 1) % g.inodesPerGroup = bit := by
  have inside := first.inside
  have back : numberOf g group bit - 1 = bit + group * g.inodesPerGroup := by
    unfold numberOf
    omega
  rw [back]
  constructor
  · rw [Nat.add_mul_div_right _ _ (by omega), Nat.div_eq_of_lt inside, Nat.zero_add]
  · rw [Nat.add_mul_mod_self_right, Nat.mod_eq_of_lt inside]

theorem ExactInodes.number_le (exact : ExactInodes g s) {group bit : Nat} (inside : group < groupsCount g.sb)
    (small : bit < g.inodesPerGroup) : numberOf g group bit ≤ g.inodesCount := by
  have rows := Nat.mul_le_mul_right g.inodesPerGroup (Nat.succ_le_of_lt inside)
  rw [Nat.succ_mul] at rows
  rw [exact.total, numberOf]
  omega

theorem ExactInodes.not_passes (exact : ExactInodes g s) {parentGroup parentIno start r : Nat}
    (found : (Sequential.findGroup g.sb s.desc parentGroup parentIno).value = some start)
    (passes : Passes g k s start (r + 1)) : False := by
  obtain ⟨inside, free⟩ := findGroup_found parentGroup parentIno start found
  have full := (passes 0 (Nat.succ_pos r)).2
  rw [Nat.add_zero, Nat.mod_eq_of_lt inside, ← full_iff, ← exact.counts start inside] at full
  exact free full

theorem ExactInodes.accepted (exact : ExactInodes g s) {start group bit : Nat} (reached : Reached g k s start group bit) :
    g.firstIno ≤ numberOf g group bit ∧ numberOf g group bit ≤ g.inodesCount := by
  obtain ⟨r, -, -, at_group, -, first⟩ := reached
  have inside : group < groupsCount g.sb := at_group ▸ Nat.mod_lt _ (groups_pos g.sb)
  refine ⟨Nat.not_lt.mp fun low => ?_, exact.number_le inside first.inside⟩
  have set := exact.reserved group inside bit first.inside low
  rw [first.clear] at set
  cases set

theorem ExactInodes.none_iff (exact : ExactInodes g s) (small : groupsCount g.sb < 2 ^ 30) {parentGroup : Nat}
    (inside : parentGroup < groupsCount g.sb) (parentIno : Nat) :
    (Sequential.findGroup g.sb s.desc parentGroup parentIno).value = none ↔
      ∀ group < groupsCount g.sb, Full g s group := by
  rw [(@findGroup_safe _ s.desc small _ inside parentIno).value.2]
  refine forall₂_congr fun group inside => ?_
  rw [← full_iff, ← exact.counts group inside]
  rfl

/-- `find_group` probes only groups of the volume and finds a free inode wherever it is. With exact counts a call
reports a full volume exactly when it is full, and otherwise sets one clear bit, that of the number it returns. -/
theorem newInode_exact (g : InodeGeometry) (small : groupsCount g.sb < 2 ^ 30) {parentGroup : Nat}
    (inside : parentGroup < groupsCount g.sb) (parentIno : Nat) (k : Kernel) (isDir : Bool) {s : InodeRecords}
    (exact : ExactInodes g s) :
    (∀ desc : Nat → DescCounts, Safe (InVolume g.sb)
      (fun found => FoundIn g.sb desc found ∧ (found = none ↔ ∀ group < groupsCount g.sb, (desc group).bgFreeInodesCount = 0))
      (Sequential.findGroup g.sb desc parentGroup parentIno)) ∧
    ((ext2NewInode g k isDir parentGroup parentIno s).value.1 = .error (-enospc) ↔
      k.newInode = true ∧ ∀ group < groupsCount g.sb, Full g s group) ∧
    (k.Succeeds → ¬ (∀ group < groupsCount g.sb, Full g s group) →
      ∃ ino, (ext2NewInode g k isDir parentGroup parentIno s).value.1 = .ok ino) ∧
    ∀ ino, (ext2NewInode g k isDir parentGroup parentIno s).value.1 = .ok ino →
      SetsBit g s (ext2NewInode g k isDir parentGroup parentIno s).value.2 ino := by
  refine ⟨fun desc => findGroup_safe small inside parentIno, ?_⟩
  have none_iff := exact.none_iff small inside parentIno
  have outcome := newInode_outcome g k isDir parentGroup parentIno s
  generalize (ext2NewInode g k isDir parentGroup parentIno s).value = result at outcome
  -- where a group is found, the volume is not full
  have room : ∀ {start}, (Sequential.findGroup g.sb s.desc parentGroup parentIno).value = some start →
      ¬ ∀ group < groupsCount g.sb, Full g s group := by
    intro start found full
    rw [none_iff.mpr full] at found
    cases found
  cases outcome with
  | noMemory none =>
    refine ⟨iff_of_false (by simp [enomem, enospc]) fun both => ?_, fun succeeds => ?_, fun ino done => by cases done⟩
    · rw [none] at both
      cases both.1
    · rw [succeeds.newInode] at none
      cases none
  | noGroup memory none =>
    exact ⟨iff_of_true rfl ⟨memory, none_iff.mp none⟩, fun _ some => absurd (none_iff.mp none) some,
      fun ino done => by cases done⟩
  | unread memory found few passes unread =>
    refine ⟨iff_of_false (by simp [eio, enospc]) fun both => room found both.2, fun succeeds => ?_, fun ino done => by cases done⟩
    exact absurd (succeeds.sbBread _) unread
  | @exhausted start memory found passes =>
    have some := groups_pos g.sb
    obtain ⟨r, same⟩ := Nat.exists_eq_succ_of_ne_zero (by omega : groupsCount g.sb ≠ 0)
    rw [same] at passes
    exact (exact.not_passes found passes).elim
  | badNumber memory found reached bad =>
    have fine := exact.accepted reached
    exact absurd bad (not_or.mpr ⟨Nat.not_lt.mpr fine.1, Nat.not_lt.mpr fine.2⟩)
  | inUse memory found reached low high taken =>
    refine ⟨iff_of_false (by simp [eio, enospc]) fun both => room found both.2, fun succeeds => ?_, fun ino done => by cases done⟩
    rw [succeeds.insertInodeLocked] at taken
    cases taken
  | @done start group bit memory found reached low high inserted =>
    refine ⟨iff_of_false (by simp) fun both => room found both.2, fun _ _ => ⟨_, rfl⟩, ?_⟩
    rintro _ ⟨⟩
    obtain ⟨-, -, -, -, -, first⟩ := reached
    obtain ⟨groupEq, bitEq⟩ := first.number
    refine ⟨⟨?_, high⟩, ?_, ?_⟩
    · unfold numberOf
      omega
    · rw [groupEq, bitEq]
      exact first.clear
    · rw [groupEq, bitEq]
      rfl

/-- Two groups of 16 inodes. -/
def twoTables : InodeGeometry where
  sb := ⟨10, 8192, 1, 16385, 2, fun group => 3 + 8192 * group, fun group => 4 + 8192 * group, fun group => 5 + 8192 * group⟩
  inodesPerGroup := 16
  firstIno := 11
  inodesCount := 32

/-- The first group is full, the other one empty. -/
def firstFull : InodeRecords :=
  ⟨fun group _ => decide (group = 0), fun group => if group = 0 then 0 else 16, fun _ => 8, fun _ => 2, 16, 2⟩

theorem firstFull_exact : ExactInodes twoTables firstFull where
  counts group inside := by
    have two : group < 2 := inside
    obtain rfl | rfl : group = 0 ∨ group = 1 := by omega
    all_goals decide
  reserved group inside bit small low := by
    simp only [numberOf, twoTables] at low small
    simp only [firstFull, decide_eq_true_eq]
    omega
  total := by decide

/-- A parent in the full group: the inode comes from the other one. -/
theorem newInode_exact_other :
    ∃ ino, (ext2NewInode twoTables willing false 0 2 firstFull).value.1 = .ok ino ∧ 16 < ino := by
  obtain ⟨-, -, some, sets⟩ := newInode_exact twoTables (by decide) (by decide : 0 < 2) 2 willing false firstFull_exact
  have succeeds : willing.Succeeds := ⟨rfl, fun _ => rfl, fun _ => rfl⟩
  obtain ⟨ino, found⟩ := some succeeds fun full => absurd (full 1 (by decide) 0 (by decide)) (by decide)
  refine ⟨ino, found, ?_⟩
  have other : (ino - 1) / 16 ≠ 0 := of_decide_eq_false (sets ino found).clear
  omega

end OsLab.Ext2
