import OsLab.Foundation.Traced
import OsLab.Ext2.Ialloc

/-!
# The search of a group for an inode

`find_group` on descriptors that no other call changes, with the groups it looks at.
-/

namespace OsLab.Ext2
open Traced

/-- The search looks at a group, or gives up before its condition says so. -/
inductive Probe where
  | look (group : Nat)
  | unfinished
  deriving DecidableEq, Repr

namespace Sequential

variable (sb : SuperBlock) (desc : Nat → DescCounts)

def quadraticSearch : Nat → Nat → Nat → Traced Probe (Option Nat)
  | 0, i, _ => do
    emitAll (if i < groupsCount sb then [.unfinished] else [])
    pure none
  | left + 1, i, group =>
    if i < groupsCount sb then do
      let group := if groupsCount sb ≤ group + i then group + i - groupsCount sb else group + i
      emit (.look group)
      if hasRoom sb group (desc group) then pure (some group) else quadraticSearch left (2 * i) group
    else pure none

def linearSearch : Nat → Nat → Traced Probe (Option Nat)
  | 0, _ => pure none
  | left + 1, group => do
    let group := (group + 1) % groupsCount sb
    emit (.look group)
    if (ext2GetGroupDesc sb group).isSome ∧ (desc group).bgFreeInodesCount ≠ 0 then pure (some group)
    else linearSearch left group

def findGroup (parentGroup parentIno : Nat) : Traced Probe (Option Nat) := do
  emit (.look parentGroup)
  if hasRoom sb parentGroup (desc parentGroup) then pure (some parentGroup)
  else do
    match ← quadraticSearch sb desc 30 1 ((parentGroup + parentIno) % 2 ^ 64 % groupsCount sb) with
    | some group => pure (some group)
    | none => linearSearch sb desc (groupsCount sb) parentGroup

end Sequential

/-! ### Probes -/

variable {sb : SuperBlock} {desc : Nat → DescCounts}

/-- The search looks at a group of the volume. -/
def InVolume (sb : SuperBlock) (e : Probe) : Prop := ∃ g < groupsCount sb, e = .look g

/-- A group that is found has a free inode. -/
def FoundIn (sb : SuperBlock) (desc : Nat → DescCounts) (found : Option Nat) : Prop :=
  ∀ g, found = some g → g < groupsCount sb ∧ (desc g).bgFreeInodesCount ≠ 0

theorem hasRoom_inode {g : Nat} (room : hasRoom sb g (desc g) = true) :
    g < groupsCount sb ∧ (desc g).bgFreeInodesCount ≠ 0 := by
  unfold hasRoom ext2GetGroupDesc at room
  split_ifs at room with beyond
  · simp at room
  · simp only [Option.isSome_some, Bool.true_and, Bool.and_eq_true, decide_eq_true_eq] at room
    exact ⟨Nat.not_le.mp beyond, room.1⟩

theorem foundIn_none : FoundIn sb desc none := fun _ found => by cases found

theorem foundIn_some {g : Nat} (inside : g < groupsCount sb ∧ (desc g).bgFreeInodesCount ≠ 0) :
    FoundIn sb desc (some g) := by
  rintro _ ⟨⟩
  exact inside

theorem groups_pos (sb : SuperBlock) : 0 < groupsCount sb := Nat.succ_pos _

theorem quadraticSearch_found (left i group : Nat) : FoundIn sb desc (Sequential.quadraticSearch sb desc left i group).value := by
  induction left generalizing i group with
  | zero => exact foundIn_none
  | succ left ih =>
    unfold Sequential.quadraticSearch
    simp only [value_ite, value_bind, value_pure]
    split_ifs with more wraps room room
    · exact foundIn_some (hasRoom_inode room)
    · exact ih _ _
    · exact foundIn_some (hasRoom_inode room)
    · exact ih _ _
    · exact foundIn_none

theorem linearSearch_found (left group : Nat) : FoundIn sb desc (Sequential.linearSearch sb desc left group).value := by
  induction left generalizing group with
  | zero => exact foundIn_none
  | succ left ih =>
    unfold Sequential.linearSearch
    simp only [value_ite, value_bind, value_pure]
    split_ifs with free
    · exact foundIn_some ⟨Nat.mod_lt _ (groups_pos sb), free.2⟩
    · exact ih _

theorem findGroup_found (parentGroup parentIno : Nat) :
    FoundIn sb desc (Sequential.findGroup sb desc parentGroup parentIno).value := by
  unfold Sequential.findGroup
  simp only [value_ite, value_bind, value_pure]
  split_ifs with room
  · exact foundIn_some (hasRoom_inode room)
  · have found := @quadraticSearch_found sb desc 30 1 ((parentGroup + parentIno) % 2 ^ 64 % groupsCount sb)
    cases value : (Sequential.quadraticSearch sb desc 30 1 ((parentGroup + parentIno) % 2 ^ 64 % groupsCount sb)).value with
    | none => exact linearSearch_found _ _
    | some group =>
      rw [value] at found
      exact found

/-- The step doubles in each round, so `left` rounds end the search when `2 ^ left` of them pass the groups. -/
theorem quadraticSearch_safe {left i group : Nat} (inside : group < groupsCount sb)
    (enough : groupsCount sb ≤ i * 2 ^ left) :
    Safe (InVolume sb) (FoundIn sb desc) (Sequential.quadraticSearch sb desc left i group) := by
  refine ⟨?_, quadraticSearch_found _ _ _⟩
  induction left generalizing i group with
  | zero =>
    rw [Nat.pow_zero, Nat.mul_one] at enough
    simp [Sequential.quadraticSearch, Nat.not_lt.mpr enough]
  | succ left ih =>
    unfold Sequential.quadraticSearch
    by_cases more : i < groupsCount sb
    · rw [if_pos more]
      have next : (if groupsCount sb ≤ group + i then group + i - groupsCount sb else group + i) < groupsCount sb := by
        split_ifs <;> omega
      generalize (if groupsCount sb ≤ group + i then group + i - groupsCount sb else group + i) = g at next ⊢
      simp only [events_bind, events_emit, events_ite, events_pure, List.singleton_append]
      intro e member
      rcases List.mem_cons.mp member with rfl | later
      · exact ⟨g, next, rfl⟩
      · split_ifs at later with room
        · cases later
        · refine ih next ?_ e later
          rw [pow_succ] at enough
          calc groupsCount sb ≤ i * (2 ^ left * 2) := enough
            _ = 2 * i * 2 ^ left := by ring
    · rw [if_neg more]
      exact fun e member => absurd member List.not_mem_nil

theorem linearSearch_safe (left group : Nat) :
    Safe (InVolume sb)
      (fun found => found = none → ∀ r, 0 < r → r ≤ left → (desc ((group + r) % groupsCount sb)).bgFreeInodesCount = 0)
      (Sequential.linearSearch sb desc left group) := by
  induction left generalizing group with
  | zero => exact Safe.pure fun _ r low high => by omega
  | succ left ih =>
    unfold Sequential.linearSearch
    have inside : (group + 1) % groupsCount sb < groupsCount sb := Nat.mod_lt _ (groups_pos sb)
    have loaded : (ext2GetGroupDesc sb ((group + 1) % groupsCount sb)).isSome = true := by
      rw [getGroupDesc_inside inside]
      rfl
    apply Safe.emit_bind
    · exact ⟨_, inside, rfl⟩
    by_cases free : (desc ((group + 1) % groupsCount sb)).bgFreeInodesCount ≠ 0
    · rw [if_pos ⟨loaded, free⟩]
      exact Safe.pure fun none => by cases none
    · rw [if_neg fun both => free both.2]
      apply (ih _).weaken
      intro found rest none r low high
      obtain rfl | ⟨r, rfl⟩ : r = 1 ∨ ∃ k, r = k + 2 := by
        obtain rfl | more := Nat.eq_or_lt_of_le (Nat.succ_le_of_lt low)
        · exact Or.inl rfl
        · exact Or.inr ⟨r - 2, by omega⟩
      · simpa using free
      · have later := rest none (r + 1) (by omega) (by omega)
        rwa [Bitmap.next_turn] at later

/-- `find_group` ends by its own conditions, looks at groups of the volume only, and finds a group with a
free inode if there is one. -/
theorem findGroup_safe (small : groupsCount sb < 2 ^ 30) {parentGroup : Nat} (inside : parentGroup < groupsCount sb)
    (parentIno : Nat) :
    Safe (InVolume sb)
      (fun found => FoundIn sb desc found ∧ (found = none ↔ ∀ g < groupsCount sb, (desc g).bgFreeInodesCount = 0))
      (Sequential.findGroup sb desc parentGroup parentIno) := by
  have inVolume := @findGroup_found sb desc parentGroup parentIno
  have searched : Safe (InVolume sb) (fun found => found = none → ∀ g < groupsCount sb, (desc g).bgFreeInodesCount = 0)
      (Sequential.findGroup sb desc parentGroup parentIno) := by
    unfold Sequential.findGroup
    apply Safe.emit_bind
    · exact ⟨_, inside, rfl⟩
    by_cases room : hasRoom sb parentGroup (desc parentGroup) = true
    · rw [if_pos room]
      exact Safe.pure fun none => by cases none
    rw [if_neg room]
    apply Safe.bind (quadraticSearch_safe (Nat.mod_lt _ (groups_pos sb)) (by omega))
    rintro (_ | g) -
    · apply (linearSearch_safe _ _).weaken
      intro found rest none g before
      have ahead : ∀ r < groupsCount sb,
          (desc (((parentGroup + 1) % groupsCount sb + r) % groupsCount sb)).bgFreeInodesCount = 0 := by
        intro r bound
        rw [Bitmap.next_turn]
        exact rest none (r + 1) (by omega) (by omega)
      have all := Bitmap.forall_turns (P := fun g => (desc g).bgFreeInodesCount = 0)
        (Nat.mod_lt (parentGroup + 1) (groups_pos sb))
      exact all.mp ahead g before
    · exact Safe.pure fun none => by cases none
  refine ⟨searched.events, inVolume, searched.value, fun all => ?_⟩
  cases found : (Sequential.findGroup sb desc parentGroup parentIno).value with
  | none => rfl
  | some g =>
    obtain ⟨before, free⟩ := inVolume g found
    exact absurd (all g before) free

/-! ### The search of a concurrent call -/

/-- What the looks find when the descriptors do not change between them. -/
def looksOf (sb : SuperBlock) (desc : Nat → DescCounts) (parentGroup parentIno : Nat) : Looks where
  parent := desc parentGroup
  quadratic i := desc (((parentGroup + parentIno) % 2 ^ 64 % groupsCount sb + (2 * i - 1)) % groupsCount sb)
  linear r := desc ((parentGroup + (r + 1)) % groupsCount sb)

theorem quadraticSearch_value {start left i group : Nat} (positive : 0 < i) (some : 0 < groupsCount sb)
    (at_group : group = (start + (i - 1)) % groupsCount sb) :
    quadraticSearch sb (fun i => desc ((start + (2 * i - 1)) % groupsCount sb)) left i group =
      (Sequential.quadraticSearch sb desc left i group).value := by
  induction left generalizing i group with
  | zero => rfl
  | succ left ih =>
    unfold quadraticSearch Sequential.quadraticSearch
    by_cases more : i < groupsCount sb
    · rw [if_pos more, if_pos more]
      have inside : group < groupsCount sb := at_group ▸ Nat.mod_lt _ some
      have wrapped : (if groupsCount sb ≤ group + i then group + i - groupsCount sb else group + i) =
          (group + i) % groupsCount sb := by
        split_ifs with beyond
        · rw [Nat.mod_eq_sub_mod beyond, Nat.mod_eq_of_lt (by omega)]
        · rw [Nat.mod_eq_of_lt (by omega)]
      have next : (group + i) % groupsCount sb = (start + (2 * i - 1)) % groupsCount sb := by
        rw [at_group, Nat.mod_add_mod]
        congr 1
        omega
      simp only [wrapped, next, value_bind, value_ite, value_pure]
      rw [ih (by omega) rfl]
    · rw [if_neg more, if_neg more]
      rfl

theorem linearSearch_value {parentGroup left group : Nat} (enough : left ≤ groupsCount sb)
    (at_group : group = (parentGroup + (groupsCount sb - left)) % groupsCount sb) :
    linearSearch sb (fun r => desc ((parentGroup + (r + 1)) % groupsCount sb)) left group =
      (Sequential.linearSearch sb desc left group).value := by
  induction left generalizing group with
  | zero => rfl
  | succ left ih =>
    have next : (group + 1) % groupsCount sb = (parentGroup + (groupsCount sb - (left + 1) + 1)) % groupsCount sb := by
      rw [at_group, Nat.mod_add_mod, Nat.add_assoc]
    unfold linearSearch Sequential.linearSearch
    simp only [next, value_bind, value_ite, value_pure]
    rw [ih (by omega) (by congr 2; omega)]

/-- A call that no other call disturbs makes the sequential search. -/
theorem findGroup_alone {parentGroup : Nat} (inside : parentGroup < groupsCount sb) (parentIno : Nat) :
    findGroup sb parentGroup parentIno (looksOf sb desc parentGroup parentIno) =
      (Sequential.findGroup sb desc parentGroup parentIno).value := by
  have some : 0 < groupsCount sb := by omega
  have quadratic := @quadraticSearch_value sb desc ((parentGroup + parentIno) % 2 ^ 64 % groupsCount sb) 30 1
    ((parentGroup + parentIno) % 2 ^ 64 % groupsCount sb) (by decide) some (by simp)
  have linear := @linearSearch_value sb desc parentGroup (groupsCount sb) parentGroup le_rfl
    (by rw [Nat.sub_self, Nat.add_zero, Nat.mod_eq_of_lt inside])
  unfold findGroup Sequential.findGroup
  by_cases room : hasRoom sb parentGroup (desc parentGroup) = true
  · rw [if_pos (show hasRoom sb parentGroup (looksOf sb desc parentGroup parentIno).parent = true from room), if_pos room]
    rfl
  · rw [if_neg (show ¬ hasRoom sb parentGroup (looksOf sb desc parentGroup parentIno).parent = true from room), if_neg room]
    simp only [looksOf, value_bind]
    rw [quadratic, linear]
    cases (Sequential.quadraticSearch sb desc 30 1 ((parentGroup + parentIno) % 2 ^ 64 % groupsCount sb)).value <;> rfl

end OsLab.Ext2
