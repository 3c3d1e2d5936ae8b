import OsLab.Ext2.BallocCalls

/-!
# Runs of concurrent block calls

Every step keeps each bit with one owner at most and the count in balance with what the
calls owe it; after any interleaving the calls have taken what they return.
-/

namespace OsLab.Ext2
open Bitmap Ledger Runs

variable {τ : Type} {n : Nat} {s : BgState τ} {t : τ} {p : BgPc}

theorem updateFreeBlocks_eq (s : BgState τ) (count : Int) (small : s.bgFreeBlocksCount < 2 ^ 16) :
    s.updateFreeBlocks count = { s with bgFreeBlocksCount := ((s.bgFreeBlocksCount + count) % 2 ^ 16).toNat } := by
  unfold BgState.updateFreeBlocks
  split_ifs with none
  · have same : ((s.bgFreeBlocksCount + count) % 2 ^ 16).toNat = s.bgFreeBlocksCount := by omega
    rw [same]
  · rfl

variable [DecidableEq τ] [Fintype τ]

/-! ### Steps -/

theorem owners_goto (held : List Nat) (bits : Bits) (free : Nat) (log : List Allocated) (b : Nat) :
    owners (BgState.goto t p ⟨bits, free, held, log, s.pc⟩) b =
      owners s b - s.held.count b - (s.pc t).owns.count b + held.count b + p.owns.count b := by
  unfold owners BgState.goto
  rw [owed_update]
  ring

theorem tracks_goto (inv : BgInvariant n s) {u : τ} (next : p.Tracks n) : (Function.update s.pc t p u).Tracks n := by
  by_cases here : u = t
  · subst here
    rwa [Function.update_self]
  · rw [Function.update_of_ne here]
    exact inv.tracks u

theorem BgInvariant.hand (inv : BgInvariant n s) {held : List Nat} {log : List Allocated}
    (kept : ∀ b, held.count b + p.owns.count b ≤ s.held.count b + (s.pc t).owns.count b)
    (debt : p.debt = (s.pc t).debt) (next : p.Tracks n) (exact : ∀ a, a ∈ log → a.Exact n) :
    BgInvariant n (BgState.goto t p { s with held := held, allocated := log }) := by
  constructor
  · intro b
    have bound := inv.once b
    have less := kept b
    rw [owners_goto]
    simp only [BgState.goto]
    omega
  · exact inv.counts.local debt
  · exact inv.small
  · exact fun u => tracks_goto inv next
  · exact exact

theorem BgInvariant.goto (inv : BgInvariant n s) (owns : p.owns = (s.pc t).owns) (debt : p.debt = (s.pc t).debt)
    (next : p.Tracks n) : BgInvariant n (BgState.goto t p s) :=
  inv.hand (fun b => by rw [owns]) debt next inv.exact

theorem BgInvariant.setBit (inv : BgInvariant n s) {count num bit : Nat} {turned : List Nat}
    (stage : s.pc t = .setBit count num bit turned) (more : num < count ∧ bit < n) (clear : s.bitmap bit = false) :
    BgInvariant n (BgState.goto t (.setBit count (num + 1) (bit + 1) (turned ++ [bit]))
      { s with bitmap := Function.update s.bitmap bit true }) := by
  have fewer := clearCount_set more.2 clear
  constructor
  · intro b
    have bound := inv.once b
    rw [owners_goto, stage]
    simp only [BgState.goto, BgPc.owns, List.count_append, List.count_singleton, room_update]
    by_cases here : b = bit
    · subst here
      rw [room_clear clear] at bound
      simp only [beq_self_eq_true, if_true, more.2, and_self]
      omega
    · have other : ¬ (bit == b) = true := by simpa using fun same => here same.symm
      simp only [if_neg here, if_neg other]
      omega
  · refine inv.counts.step_eq t _ ?_
    rw [stage]
    simp only [BgState.goto, BgPc.debt]
    omega
  · exact inv.small
  · refine fun u => tracks_goto inv ?_
    have tracks := inv.tracks t
    rw [stage] at tracks
    obtain ⟨start, rfl, next, bound, few⟩ := tracks
    rcases Nat.eq_zero_or_pos num with rfl | some
    · exact ⟨bit, by simp, by omega, by omega, by omega⟩
    · have last := next some
      refine ⟨start, ?_, by omega, by omega, by omega⟩
      rw [← last, List.range'_concat, Nat.one_mul]
  · exact inv.exact

theorem BgInvariant.clearBit (inv : BgInvariant n s) {bit count i freed : Nat} (stage : s.pc t = .clearBit bit count i freed)
    (more : i < count) :
    s.bitmap (bit + i) = true ∧
      BgInvariant n (BgState.goto t (.clearBit bit count (i + 1) (freed + 1))
        { s with bitmap := Function.update s.bitmap (bit + i) false }) := by
  have run : List.range' (bit + i) (count - i) = (bit + i) :: List.range' (bit + (i + 1)) (count - (i + 1)) := by
    rw [show count - i = count - (i + 1) + 1 by omega, List.range'_succ, Nat.add_assoc]
  have mine := owns_le s t (bit + i)
  have bound := inv.once (bit + i)
  rw [stage] at mine
  simp only [BgPc.owns, run, List.count_cons_self] at mine
  obtain ⟨set, inside⟩ : s.bitmap (bit + i) = true ∧ bit + i < n := room_pos (by omega)
  have more' := clearCount_clear inside set
  refine ⟨set, ?_⟩
  constructor
  · intro b
    have bound := inv.once b
    rw [owners_goto, stage]
    simp only [BgState.goto, BgPc.owns, run, List.count_cons, room_update]
    by_cases here : b = bit + i
    · subst here
      have one := room_le s.bitmap n (bit + i)
      simp only [beq_self_eq_true, if_true, Bool.false_eq_true, false_and, if_false]
      omega
    · have other : ¬ (bit + i == b) = true := by simpa using fun same => here same.symm
      simp only [if_neg here, if_neg other]
      omega
  · refine inv.counts.step_eq t _ ?_
    rw [stage]
    simp only [BgState.goto, BgPc.debt]
    omega
  · exact inv.small
  · refine fun u => tracks_goto inv ?_
    have tracks := inv.tracks t
    rw [stage] at tracks
    obtain ⟨same, -⟩ := tracks
    exact ⟨by omega, more⟩
  · exact inv.exact

theorem BgInvariant.pay (inv : BgInvariant n s) {count : Int} (owns : (s.pc t).owns = [])
    (debt : (s.pc t).debt = -count) : BgInvariant n (BgState.goto t .idle (s.updateFreeBlocks count)) := by
  rw [updateFreeBlocks_eq s count inv.small]
  have low := Int.emod_nonneg (s.bgFreeBlocksCount + count) (show (2 : Int) ^ 16 ≠ 0 by decide)
  have high := Int.emod_lt_of_pos (s.bgFreeBlocksCount + count) (show (0 : Int) < 2 ^ 16 by decide)
  constructor
  · intro b
    have bound := inv.once b
    rw [owners_goto, owns]
    simp only [BgState.goto, BgPc.owns, List.count_nil]
    omega
  · refine inv.counts.step t .idle ?_
    simp only [BgState.goto]
    rw [debt, Int.toNat_of_nonneg low]
    have reduced := (Int.mod_modEq (s.bgFreeBlocksCount + count) (2 ^ 16)).sub_right (clearCount s.bitmap n : Int)
    simp only [BgPc.debt]
    ring_nf at reduced ⊢
    exact reduced
  · simp only [BgState.goto]
    omega
  · exact fun u => tracks_goto inv trivial
  · exact inv.exact

theorem BgInvariant.finish (inv : BgInvariant n s) {count num bit : Nat} {turned : List Nat}
    (stage : s.pc t = .setBit count num bit turned) (few : n ≤ 2 ^ 15) :
    BgInvariant n (BgState.finish t count num bit turned s) := by
  have tracks := inv.tracks t
  rw [stage] at tracks
  obtain ⟨start, rfl, next, bound, most⟩ := tracks
  unfold BgState.finish
  split_ifs with none
  · subst none
    refine inv.hand (fun b => by simp) (by rw [stage]; rfl) trivial fun a member => ?_
    rcases List.mem_cons.mp member with rfl | old
    · exact Or.inl ⟨rfl, rfl⟩
    · exact inv.exact a old
  · have last := next (Nat.pos_of_ne_zero none)
    have result : Int.bmod (bit - num : Int) (2 ^ 32) = start := by
      rw [show (bit - num : Int) = start by omega]
      exact Int.bmod_eq_of_le (by omega) (by omega)
    simp only [result, if_neg (show ¬ (start : Int) < 0 by omega), Int.toNat_natCast]
    refine inv.hand (fun b => ?_) (by rw [stage]; rfl) trivial fun a member => ?_
    · rw [stage, List.count_append]
      simp only [BgPc.owns, List.count_nil]
      omega
    · rcases List.mem_cons.mp member with rfl | old
      · exact Or.inr ⟨start, rfl, rfl, last.le.trans bound, Nat.pos_of_ne_zero none, most⟩
      · exact inv.exact a old

theorem BgInvariant.advance (inv : BgInvariant n s) (t : τ) {index : Nat} (few : n ≤ 2 ^ 15) :
    BgInvariant n (s.advance n t index) := by
  cases stage : s.pc t with
  | idle => simpa only [BgState.advance, stage] using inv
  | findNextZeroBit count =>
    simp only [BgState.advance, stage]
    split_ifs with full
    · refine inv.hand (fun b => by rw [stage]; simp) (by rw [stage]; rfl) trivial fun a member => ?_
      rcases List.mem_cons.mp member with rfl | old
      · exact Or.inl ⟨rfl, rfl⟩
      · exact inv.exact a old
    · exact inv.goto (by rw [stage]; rfl) (by rw [stage]; rfl) ⟨0, rfl, by omega, by omega, by omega⟩
  | setBit count num bit turned =>
    simp only [BgState.advance, stage]
    split_ifs with more set none
    · have tracks := inv.tracks t
      rw [stage] at tracks
      obtain ⟨start, turned, -, bound, most⟩ := tracks
      exact inv.goto (by rw [stage]; rfl) (by rw [stage]; rfl) ⟨start, turned, by omega, by omega, most⟩
    · exact inv.finish stage few
    · exact inv.setBit stage more (Bool.eq_false_iff.mpr set)
    · exact inv.finish stage few
  | newBlocks count =>
    simp only [BgState.advance, stage]
    exact inv.pay (by rw [stage]; rfl) (by rw [stage]; simp)
  | clearBit bit count i freed =>
    simp only [BgState.advance, stage]
    split_ifs with more set
    · exact (inv.clearBit stage more).2
    · exact absurd (inv.clearBit stage more).1 set
    · have done : count - i = 0 := by omega
      exact inv.goto (by rw [stage]; simp [done]) (by rw [stage]; rfl) trivial
  | freeBlocks freed =>
    simp only [BgState.advance, stage]
    exact inv.pay (by rw [stage]; rfl) (by rw [stage]; rfl)

theorem nblocks_small {v : Volume} {group : Nat} (inside : group < groupsCount v.toSuperBlock) :
    nblocks v.toSuperBlock group ≤ 2 ^ 15 := by
  have few := nblocks_le inside
  have bits := v.perGroup.2
  have size := blocksize_le (v := v)
  omega

theorem bgStep_invariant {v : Volume} {group : Nat} {e : BgEvent τ} {s' : BgState τ}
    (inside : group < groupsCount v.toSuperBlock) (inv : BgInvariant (nblocks v.toSuperBlock group) s)
    (step : BgStep v group s e s') : BgInvariant (nblocks v.toSuperBlock group) s' := by
  cases step with
  | allocate t count ready wanted => exact inv.goto (by rw [ready]; rfl) (by rw [ready]; rfl) trivial
  | free t block count readable ready here owned =>
    generalize bitOf v.toSuperBlock block = bit at *
    have part : ∀ b, (List.range' bit count).count b ≤ s.held.count b :=
      (List.subperm_of_subset List.nodup_range' fun b member => owned b member).count_le
    cases acceptsFree v.toSuperBlock group block count readable with
    | false =>
      refine inv.hand (fun b => ?_) (by rw [ready]; rfl) trivial inv.exact
      rw [List.count_diff, ready]
      simp
    | true =>
      refine inv.hand (fun b => ?_) (by rw [ready]; rfl) ⟨rfl, Nat.zero_le _⟩ inv.exact
      have less := part b
      rw [List.count_diff, ready]
      simp only [if_true, BgPc.owns, Nat.add_zero, Nat.sub_zero, List.count_nil]
      omega
  | advance t index bound => exact inv.advance t (nblocks_small inside)

/-! ### Whole runs -/

/-- After any interleaving each call that has returned turned the bits it returned and no others, what
is handed out is handed out once, and the count is exact when all calls have returned. -/
theorem bg_runs {v : Volume} {group : Nat} {s' : BgState τ} {es : List (BgEvent τ)}
    (inside : group < groupsCount v.toSuperBlock) (start : BgSettled (nblocks v.toSuperBlock group) s)
    (run : Steps (BgStep v group) s es s') :
    (∀ a, a ∈ s'.allocated → a.Exact (nblocks v.toSuperBlock group)) ∧
      (s'.held.Nodup ∧ (∀ b, b ∈ s'.held → s'.bitmap b = true ∧ b < nblocks v.toSuperBlock group) ∧
        ∀ t b, b ∈ (s'.pc t).owns → b ∉ s'.held) ∧
      ((∀ t, s'.pc t = .idle) → s'.bgFreeBlocksCount = clearCount s'.bitmap (nblocks v.toSuperBlock group)) := by
  have few := nblocks_small inside
  have inv := run.invariant (fun _ _ _ kept step => bgStep_invariant inside kept step) (start.invariant few)
  refine ⟨inv.exact, inv.apart, fun idle => ?_⟩
  have most := clearCount_le s'.bitmap (nblocks v.toSuperBlock group)
  exact counter_exact (inv.counts.quiet fun t => by rw [idle t]; rfl) inv.small (by omega)

/-! ### Two calls that race for one bit -/

def secondGroup : BgState Bool := ⟨metadataOnly, 11, [], [], fun _ => .idle⟩

theorem secondGroup_settled : BgSettled (nblocks twoGroups.toSuperBlock 1) secondGroup where
  idle _ := rfl
  nodup := List.nodup_nil
  bits _ held := absurd held List.not_mem_nil
  exact := by decide
  fresh := rfl

/-- Both scans find bit 5. The first call takes it and stops at bit 6, which the second one has taken. -/
def bitRace : List Bool := [true, false, true, false, false, true, false, false, true, false]

theorem bg_advances (v : Volume) {group index : Nat} (bound : index ≤ nblocks v.toSuperBlock group) (s : BgState Bool)
    (ts : List Bool) :
    Steps (BgStep v group) s (ts.map fun t => .advance t index)
      (ts.foldl (fun s t => s.advance (nblocks v.toSuperBlock group) t index) s) := by
  induction ts generalizing s with
  | nil => exact .nil s
  | cons t ts ih => exact .cons (.advance s t index bound) (ih _)

def bothAllocate : BgState Bool :=
  BgState.goto false (.findNextZeroBit 2) (BgState.goto true (.findNextZeroBit 4) secondGroup)

theorem bg_runs_race :
    (bitRace.foldl (fun s t => s.advance 16 t 5) bothAllocate).allocated = [⟨2, 6, 2, [6, 7]⟩, ⟨4, 5, 1, [5]⟩] ∧
      (bitRace.foldl (fun s t => s.advance 16 t 5) bothAllocate).bgFreeBlocksCount =
        clearCount (bitRace.foldl (fun s t => s.advance 16 t 5) bothAllocate).bitmap 16 := by
  have first := @BgStep.allocate Bool _ twoGroups 1 secondGroup true 4 rfl (by decide)
  have second := @BgStep.allocate Bool _ twoGroups 1 (BgState.goto true (.findNextZeroBit 4) secondGroup) false 2 rfl (by decide)
  obtain ⟨-, -, exact⟩ := bg_runs (by decide) secondGroup_settled
    (.cons first (.cons second (bg_advances twoGroups (show 5 ≤ nblocks twoGroups.toSuperBlock 1 by decide) bothAllocate bitRace)))
  exact ⟨by decide, exact (by decide)⟩

end OsLab.Ext2
